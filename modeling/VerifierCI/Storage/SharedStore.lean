import VerifierCI.Storage.StoreSteps

/-! # A store shared by many clients

A put takes effect when its file takes the place of the stored one, a collection
when it unlinks one. Whatever the order of the operations, and whoever is killed
between two of them, the files are what these effects make of them one after
another, and each of them has the digest it is stored under.
-/

namespace VerifierCI

open Python Relational Transition Custody

/-! ## Shelves -/

section Shelves

variable {sha256 : List UInt8 → Digest} {shelf : Shelf} {digest : Digest}

/-- Every file has the digest it is stored under. -/
def Shelf.Addressed (sha256 : List UInt8 → Digest) (shelf : Shelf) : Prop :=
  ∀ digest content, shelf digest = some content → sha256 content = digest

/-- Bytes are put under their own digest, and purging puts none. -/
theorem Shelf.Addressed.step (h : shelf.Addressed sha256) (event : ShelfEvent) :
    (shelf.step sha256 event).Addressed sha256 := by
  intro digest content hcontent
  cases event with
  | put placed =>
      by_cases heq : digest = sha256 placed
      · rw [Shelf.step, heq, Function.update_self] at hcontent
        rw [heq, Option.some.inj hcontent]
      · rw [Shelf.step, Function.update_of_ne heq] at hcontent
        exact h digest content hcontent
  | drop dropped nowUtc =>
      by_cases heq : digest = dropped
      · rw [Shelf.step, heq, Function.update_self] at hcontent
        cases hcontent
      · rw [Shelf.step, Function.update_of_ne heq] at hcontent
        exact h digest content hcontent

/-- Bytes that are found were there from the start or have been put. -/
def Shelf.Came (shelf : Shelf) (history : List ShelfEvent) (digest : Digest)
    (content : List UInt8) : Prop :=
  shelf digest = some content ∨ .put content ∈ history

/-- By induction from the end of the history: bytes that are there were put and not purged
since. -/
theorem Shelf.came_of_run {history : List ShelfEvent} {content : List UInt8}
    (h : run (Shelf.step sha256) shelf history digest = some content) :
    shelf.Came history digest content := by
  induction history generalizing shelf with
  | nil => exact Or.inl h
  | cons event rest ih =>
      rcases ih h with hshelf | hput
      · cases event with
        | put placed =>
            by_cases heq : digest = sha256 placed
            · rw [Shelf.step, heq, Function.update_self] at hshelf
              obtain rfl := Option.some.inj hshelf
              exact Or.inr List.mem_cons_self
            · rw [Shelf.step, Function.update_of_ne heq] at hshelf
              exact Or.inl hshelf
        | drop dropped nowUtc =>
            by_cases heq : digest = dropped
            · rw [Shelf.step, heq, Function.update_self] at hshelf
              cases hshelf
            · rw [Shelf.step, Function.update_of_ne heq] at hshelf
              exact Or.inl hshelf
      · exact Or.inr (List.mem_cons_of_mem event hput)

/-- Only a drop takes the bytes of a digest away. -/
theorem Shelf.run_ne_none {history : List ShelfEvent}
    (hkept : ∀ nowUtc, .drop digest nowUtc ∉ history)
    (h : shelf digest ≠ none) : run (Shelf.step sha256) shelf history digest ≠ none := by
  induction history generalizing shelf with
  | nil => exact h
  | cons event rest ih =>
      apply ih fun nowUtc hrest => hkept nowUtc (List.mem_cons_of_mem event hrest)
      cases event with
      | put placed =>
          by_cases heq : digest = sha256 placed
          · rw [Shelf.step, heq, Function.update_self]
            exact Option.some_ne_none placed
          · rwa [Shelf.step, Function.update_of_ne heq]
      | drop dropped nowUtc =>
          have hne : digest ≠ dropped := by
            rintro rfl
            exact hkept nowUtc List.mem_cons_self
          rwa [Shelf.step, Function.update_of_ne hne]

end Shelves

/-! ## What clients know -/

section Knowledge

variable (sha256 : List UInt8 → Digest) (shelf : Shelf)

/-- What has come of a put that returns an artifact. -/
structure Placed (history : List ShelfEvent) (call : PutCall) (artifact : Artifact) : Prop where
  digest : artifact.digest = sha256 call.source.data
  size : artifact.sizeBytes = call.source.data.length
  within : call.source.data = [] ∨ (call.source.data.length : Int) ≤ call.options.maxBytes
  placed : .put call.source.data ∈ history

/-- What a client knows of the disk between two of its operations. -/
def Client.Knows (history : List ShelfEvent) (disk : StoreDisk) : Client → Prop
  | .putting call (.copying name fed totalBytes reads) =>
      disk.temps.lookup name = some fed ∧ totalBytes = fed.length ∧
        (fed = [] ∨ totalBytes ≤ call.options.maxBytes) ∧
          fed ++ streamed reads = call.source.data
  | .putting call (.placing name fed totalBytes) =>
      disk.temps.lookup name = some fed ∧ totalBytes = fed.length ∧
        (fed = [] ∨ totalBytes ≤ call.options.maxBytes) ∧ fed = call.source.data
  | .putting call (.registering name artifact) =>
      disk.temps.lookup name = none ∧ Placed sha256 history call artifact
  | .put call (.ok artifact) => Placed sha256 history call artifact ∧
      (call.conn = true → ∃ row, disk.store.db.artifacts.find? artifact.digest.text = some row)
  | .verifying digest content => sha256 content = digest ∧ shelf.Came history digest content
  | .opened digest (.ok content) =>
      (sha256 content).text = digest ∧ shelf.Came history (sha256 content) content
  | .opened _ (.error exc) => ∀ cls message, exc ≠ .verifierCI cls message .digestMismatch
  | .collecting _ _ _ rows => ∀ row ∈ rows, row.accessPolicy ≠ .sealed ∧
      ∃ available, disk.store.db.artifacts.find? row.digest.text = some (row.setAvailable available)
  | .marking _ _ _ rows => ∀ row ∈ rows, row.accessPolicy ≠ .sealed ∧
      ∃ available, disk.store.db.artifacts.find? row.digest.text = some (row.setAvailable available)
  | _ => True

/-- What everybody knows: the files are what the puts and drops make of them, and only what
has expired is dropped. -/
structure StoreDisk.Stocked (history : List ShelfEvent) (disk : StoreDisk) : Prop where
  files : disk.store.files = run (Shelf.step sha256) shelf history
  addressed : Shelf.Addressed sha256 disk.store.files
  dropped : ∀ digest nowUtc, .drop digest nowUtc ∈ history →
    ∃ row, disk.store.db.artifacts.find? digest.text = some row ∧ row.accessPolicy ≠ .sealed ∧
      row.expired nowUtc = true

/-- No two puts hold the same temporary file. -/
def Client.Apart (client other : Client) : Prop :=
  ∀ name, client.name? = some name → other.name? ≠ some name

variable {sha256 shelf} {history : List ShelfEvent} {disk disk' : StoreDisk}
  {client client' other : Client} {action : ClientAction} {effect : Option ShelfEvent}

theorem Placed.append {call : PutCall} {artifact : Artifact}
    (h : Placed sha256 history call artifact) (later : List ShelfEvent) :
    Placed sha256 (history ++ later) call artifact :=
  ⟨h.digest, h.size, h.within, List.mem_append_left later h.placed⟩

theorem Shelf.Came.append {digest : Digest} {content : List UInt8}
    (h : shelf.Came history digest content) (later : List ShelfEvent) :
    shelf.Came (history ++ later) digest content :=
  h.imp_right (List.mem_append_left later)

/-- What is known of rows stays known. -/
theorem Db.KeepsRows.known {db db' : Db} (h : db.KeepsRows db') {row : ArtifactRow}
    (hrow : ∃ available, db.artifacts.find? row.digest.text = some (row.setAvailable available)) :
    ∃ available, db'.artifacts.find? row.digest.text = some (row.setAvailable available) := by
  obtain ⟨available, hrow⟩ := hrow
  obtain ⟨available', hrow'⟩ := h row.digest _ hrow
  exact ⟨available', hrow'⟩

/-- What one client does is no news to the others. Their temporary files are their own, rows
stay under their digests, and the history only gets longer. -/
theorem Client.Knows.others (h : other.Knows sha256 shelf history disk)
    (hstep : Client.Step sha256 disk action client disk' client' effect)
    (hapart : other.Apart client)
    (hdrawn : ∀ call name, action = .put call name → other.name? ≠ some name) :
    other.Knows sha256 shelf (history ++ effect.toList) disk' := by
  have hlookup : ∀ name, other.name? = some name →
      disk'.temps.lookup name = disk.temps.lookup name := by
    intro name hname
    apply hstep.lookup (hapart name hname)
    intro hname'
    rcases hstep.name? hname' with hheld | ⟨call, hput⟩
    · exact hapart name hname hheld
    · exact hdrawn call name hput hname
  have hrows := hstep.keepsRows
  cases other with
  | putting call stage =>
      cases stage with
      | copying name fed totalBytes reads => exact ⟨(hlookup name rfl).trans h.1, h.2⟩
      | placing name fed totalBytes => exact ⟨(hlookup name rfl).trans h.1, h.2⟩
      | registering name artifact => exact ⟨(hlookup name rfl).trans h.1, h.2.append _⟩
      | failing name exc => trivial
  | put call result =>
      cases result with
      | error exc => trivial
      | ok artifact =>
          refine ⟨h.1.append _, fun hconn => ?_⟩
          obtain ⟨row, hrow⟩ := h.2 hconn
          obtain ⟨available, hrow'⟩ := hrows artifact.digest row hrow
          exact ⟨_, hrow'⟩
  | verifying digest content => exact ⟨h.1, h.2.append _⟩
  | opened digest result =>
      cases result with
      | error exc => exact h
      | ok content => exact ⟨h.1, h.2.append _⟩
  | collecting nowUtc dryRun purged rows =>
      exact fun row hrow => ⟨(h row hrow).1, hrows.known (h row hrow).2⟩
  | marking digest nowUtc purged rows =>
      exact fun row hrow => ⟨(h row hrow).1, hrows.known (h row hrow).2⟩
  | _ => trivial

/-- A step does to the files what its effect says. -/
theorem Client.Step.files (h : Client.Step sha256 disk action client disk' client' effect)
    (hknows : client.Knows sha256 shelf history disk) :
    disk'.store.files = run (Shelf.step sha256) disk.store.files effect.toList := by
  cases h with
  | replace refusal call name fed totalBytes hfile =>
      obtain rfl := Option.some.inj (hfile.symm.trans hknows.1)
      rw [StoreDisk.replaceTemp_eq hfile]
      rfl
  | register => exact StoreDisk.registerOn_files _
  | _ => rfl

/-- What a step adds to the history is what it does to the files. -/
theorem StoreDisk.Stocked.step (h : disk.Stocked sha256 shelf history)
    (hknows : client.Knows sha256 shelf history disk)
    (hstep : Client.Step sha256 disk action client disk' client' effect) :
    disk'.Stocked sha256 shelf (history ++ effect.toList) := by
  have hfiles := hstep.files hknows
  have hrows := hstep.keepsRows
  constructor
  · rw [run_append, ← h.files, hfiles]
  · rw [hfiles]
    exact run_invariant (Shelf.Addressed sha256) (fun _ event h => h.step event) h.addressed _
  · intro digest nowUtc hdrop
    -- an older drop keeps its row, up to its availability; a new one is of a row just fetched
    rcases List.mem_append.mp hdrop with hold | hnew
    · obtain ⟨row, hrow, hpolicy, hexpired⟩ := h.dropped digest nowUtc hold
      obtain ⟨available, hrow'⟩ := hrows digest row hrow
      exact ⟨_, hrow', hpolicy, hexpired⟩
    · cases hstep with
      | drop refusal nowUtc purged rest hexpired =>
          obtain ⟨rfl, rfl⟩ := ShelfEvent.drop.inj (List.mem_singleton.mp hnew)
          obtain ⟨hpolicy, available, hrow⟩ := hknows _ List.mem_cons_self
          exact ⟨_, hrow, hpolicy, hexpired⟩
      | replace => cases List.mem_singleton.mp hnew
      | _ => cases hnew

theorem known_of_collectable {row : ArtifactRow} (h : row ∈ collectableRows disk.store.db) :
    row.accessPolicy ≠ .sealed ∧ ∃ available,
      disk.store.db.artifacts.find? row.digest.text = some (row.setAvailable available) := by
  obtain ⟨hmem, _, hpolicy, _⟩ := mem_collectableRows.mp h
  exact ⟨hpolicy, row.available, Table.find?_of_mem hmem⟩

/-- What a client knows after its own step. A put that has placed its file remembers the event,
and one that was answered has its row besides. -/
theorem Client.Knows.own (h : client.Knows sha256 shelf history disk)
    (hstocked : disk.Stocked sha256 shelf history)
    (hstep : Client.Step sha256 disk action client disk' client' effect) :
    client'.Knows sha256 shelf (history ++ effect.toList) disk' := by
  cases hstep with
  | stay =>
      rw [Option.toList_none, List.append_nil]
      exact h
  | create call name hready hreads =>
      exact ⟨by rw [StoreDisk.createTemp_lookup, if_pos rfl], rfl, Or.inl rfl, hreads⟩
  | finish refusal call name fed totalBytes hdone =>
      obtain ⟨hfile, htotal, hlimit, hdata⟩ := h
      rw [hdone, List.append_nil] at hdata
      exact ⟨hfile, htotal, hlimit, hdata⟩
  | append refusal call name fed totalBytes rest hchunk hlimit =>
      obtain ⟨hfile, htotal, _, hdata⟩ := h
      refine ⟨?_, ?_, Or.inr hlimit, ?_⟩
      · rw [StoreDisk.appendTemp_lookup, if_pos rfl, hfile, Option.map_some]
      · rw [htotal, List.length_append, Int.natCast_add]
      · rw [← hdata, streamed_cons hchunk, List.append_assoc]
  | replace refusal call name fed totalBytes hfile =>
      obtain ⟨hheld, htotal, hlimit, hdata⟩ := h
      obtain rfl := Option.some.inj (hfile.symm.trans hheld)
      refine ⟨by rw [StoreDisk.replaceTemp_lookup, if_pos rfl], ?_⟩
      subst hdata htotal
      exact ⟨rfl, rfl, hlimit, List.mem_append_right history (List.mem_singleton.mpr rfl)⟩
  | register refusal call name artifact hregistered =>
      refine ⟨h.2.append _, fun hconn => ?_⟩
      rw [StoreDisk.registerOn, if_pos hconn] at hregistered ⊢
      cases hdb : registerArtifact disk.store.db artifact with
      | error exc =>
          rw [hdb] at hregistered
          cases hregistered
      | ok db => exact ⟨_, (registerArtifact_ok hdb).1⟩
  | missed action digest exc hname hleft hexc => exact hexc
  | openFile refusal hfile =>
      -- the bytes of the file stay with the reader, whoever unlinks its path
      refine ⟨hstocked.addressed _ _ hfile, ?_⟩
      rw [hstocked.files] at hfile
      exact Shelf.came_of_run hfile |>.append _
  | verify refusal digest content =>
      obtain ⟨rfl, hcame⟩ := h
      rw [Client.verify, openStored, if_neg (not_not_intro rfl)]
      exact ⟨rfl, hcame.append _⟩
  | fetch => exact fun row hrow => known_of_collectable hrow
  | skip refusal nowUtc dryRun purged purged' row rest =>
      exact fun other hother => h other (List.mem_cons_of_mem row hother)
  | drop refusal nowUtc purged rest hexpired =>
      exact fun other hother => h other (List.mem_cons_of_mem _ hother)
  | mark refusal digest nowUtc purged rows =>
      intro row hrow
      obtain ⟨hpolicy, hknown⟩ := h row hrow
      exact ⟨hpolicy, (Db.KeepsRows.setAvailable disk.store.db digest false).known hknown⟩
  | _ => trivial

/-- A put that ends gives up its temporary file. -/
theorem Client.Step.released (h : Client.Step sha256 disk action client disk' client' effect)
    (hknows : client.Knows sha256 shelf history disk) {name : String}
    (hname : client.name? = some name) (hname' : client'.name? ≠ some name) :
    client'.left? = some name ∨ disk'.temps.lookup name = none := by
  cases h with
  | stay => exact absurd hname hname'
  | create _ _ hready => exact absurd ((name?_of_ready hready).symm.trans hname) (by simp)
  | reject _ _ _ hready => exact absurd ((name?_of_ready hready).symm.trans hname) (by simp)
  | find _ _ hready => exact absurd ((name?_of_ready hready).symm.trans hname) (by simp)
  | fetch _ _ _ hready => exact absurd ((name?_of_ready hready).symm.trans hname) (by simp)
  | missed _ _ _ hnone => exact absurd (hnone.symm.trans hname) (by simp)
  | collected _ _ hnone => exact absurd (hnone.symm.trans hname) (by simp)
  | finish | append | replace => exact absurd hname hname'
  | fail refusal call stage own exc hown => exact absurd (hown.symm.trans hname) hname'
  | register refusal call own artifact hregistered =>
      obtain rfl := Option.some.inj hname
      rw [StoreDisk.registerOn_temps]
      exact Or.inr hknows.1
  | cleanUp refusal call own exc =>
      obtain rfl := Option.some.inj hname
      rw [StoreDisk.unlinkTemp_lookup, if_pos rfl]
      exact Or.inr rfl
  | kill => exact Or.inl (by simp [Client.left?, hname])
  | _ => cases hname

/-- A killed put leaves its temporary file, and nobody picks it up. -/
theorem Client.Step.left? (h : Client.Step sha256 disk action client disk' client' effect)
    {name : String} (hleft : client.left? = some name) : client'.left? = some name := by
  cases h with
  | stay => exact hleft
  | create _ _ hready => exact absurd ((left?_of_ready hready).symm.trans hleft) (by simp)
  | reject _ _ _ hready => exact absurd ((left?_of_ready hready).symm.trans hleft) (by simp)
  | find _ _ hready => exact absurd ((left?_of_ready hready).symm.trans hleft) (by simp)
  | fetch _ _ _ hready => exact absurd ((left?_of_ready hready).symm.trans hleft) (by simp)
  | missed _ _ _ _ hnone => exact absurd (hnone.symm.trans hleft) (by simp)
  | collected _ _ _ hnone => exact absurd (hnone.symm.trans hleft) (by simp)
  | kill =>
      cases client with
      | killed left => exact hleft
      | _ => cases hleft
  | _ => cases hleft

/-- A temporary file is a client's own after the step, or was there before and is not. -/
theorem Client.Step.temps (h : Client.Step sha256 disk action client disk' client' effect)
    (hknows : client.Knows sha256 shelf history disk) {name : String}
    (hfile : disk'.temps.lookup name ≠ none) :
    client'.name? = some name ∨ client'.left? = some name ∨
      disk.temps.lookup name ≠ none ∧ client.name? ≠ some name ∧ client.left? ≠ some name := by
  by_cases hname' : client'.name? = some name
  · exact Or.inl hname'
  · by_cases hname : client.name? = some name
    · rcases h.released hknows hname hname' with hleft | hgone
      · exact Or.inr (Or.inl hleft)
      · exact absurd hgone hfile
    · by_cases hleft : client.left? = some name
      · exact Or.inr (Or.inl (h.left? hleft))
      · rw [h.lookup hname hname'] at hfile
        exact Or.inr (Or.inr ⟨hfile, hname, hleft⟩)

end Knowledge

/-! ## Any number of clients -/

section Clients

variable {ι : Type} [DecidableEq ι] (sha256 : List UInt8 → Digest)

/-- The store after any run of its clients, by the effects their operations have had. -/
structure StoreClients.Sound (disk : StoreDisk) (history : List ShelfEvent)
    (clients : StoreClients ι) : Prop where
  files : clients.shared.store.files = run (Shelf.step sha256) disk.store.files history
  /-- No file is ever seen that lacks the digest it is stored under, half written or not. -/
  addressed : ∀ digest content, clients.shared.store.files digest = some content →
    sha256 content = digest
  /-- A put that has returned has put its bytes, and only a drop can have taken them since. -/
  put : ∀ i call artifact, clients.thread i = .put call (.ok artifact) →
    artifact.digest = sha256 call.source.data ∧
    artifact.sizeBytes = call.source.data.length ∧
    (call.source.data = [] ∨ (call.source.data.length : Int) ≤ call.options.maxBytes) ∧
    (call.conn = true →
      ∃ row, clients.shared.store.db.artifacts.find? artifact.digest.text = some row) ∧
    ∃ before after, history = before ++ .put call.source.data :: after ∧
      ((∀ nowUtc, .drop artifact.digest nowUtc ∉ after) →
        clients.shared.store.files artifact.digest ≠ none)
  /-- A collection drops what is neither sealed nor still to be retained. -/
  dropped : ∀ digest nowUtc, .drop digest nowUtc ∈ history →
    ∃ row, clients.shared.store.db.artifacts.find? digest.text = some row ∧
      row.accessPolicy ≠ .sealed ∧ row.expired nowUtc = true
  /-- A read returns bytes of the digest that somebody has put. -/
  read : ∀ i digest content, clients.thread i = .opened digest (.ok content) →
    (sha256 content).text = digest ∧
      (disk.store.files (sha256 content) = some content ∨ .put content ∈ history)
  /-- The checksum of a file is never found to be wrong. -/
  unaltered : ∀ i digest exc, clients.thread i = .opened digest (.error exc) →
    ∀ cls message, exc ≠ .verifierCI cls message .digestMismatch
  /-- A temporary file is that of a put under way, or was left behind. -/
  temps : ∀ name, clients.shared.temps.lookup name ≠ none → disk.temps.lookup name ≠ none ∨
    ∃ i, (clients.thread i).name? = some name ∨ (clients.thread i).left? = some name

variable {sha256}

structure StoreClients.Inv (sha256 : List UInt8 → Digest) (disk : StoreDisk)
    (history : List ShelfEvent) (clients : StoreClients ι) : Prop where
  stands : clients.Stands (StoreDisk.Stocked sha256 disk.store.files history)
    (Client.Knows sha256 disk.store.files history) Client.Apart
  temps : ∀ name, clients.shared.temps.lookup name ≠ none → disk.temps.lookup name ≠ none ∨
    ∃ i, (clients.thread i).name? = some name ∨ (clients.thread i).left? = some name

/-- The step of one client keeps what the others know: their temporary names are their own, and
files only change by the effects that are recorded. -/
theorem StoreClients.Inv.step {disk : StoreDisk} {history : List ShelfEvent}
    {clients : StoreClients ι} (h : clients.Inv sha256 disk history) {event : ι × ClientAction}
    (hdraws : clients.Draws event) :
    (clients.step sha256 event).Inv sha256 disk (history ++ (clients.effect event).toList) := by
  obtain ⟨i, action⟩ := event
  have hstep : Client.Step sha256 clients.shared action (clients.thread i)
      ((clients.thread i).act sha256 action clients.shared).1
      ((clients.thread i).act sha256 action clients.shared).2
      ((clients.thread i).effect action clients.shared) :=
    Client.act_step action clients.shared (clients.thread i)
  have hdrawn : ∀ call name, action = .put call name → ∀ j, (clients.thread j).name? ≠ some name :=
    fun call name hput => (hdraws call name hput).2
  have hname : ∀ name, ((clients.thread i).act sha256 action clients.shared).2.name? = some name →
      ∀ j, j ≠ i → (clients.thread j).name? ≠ some name := by
    intro name hname j hne
    rcases hstep.name? hname with hheld | ⟨call, hput⟩
    · exact h.stands.apart i j hne.symm name hheld
    · exact hdrawn call name hput j
  constructor
  · -- a name in use after the step was in use before, or is drawn now
    apply h.stands.step
    · exact h.stands.shared.step (h.stands.own i) hstep
    · exact (h.stands.own i).own h.stands.shared hstep
    · intro j hne hknows
      exact hknows.others hstep (h.stands.apart j i hne) fun call name hput =>
        hdrawn call name hput j
    · intro j hne
      exact ⟨fun name hown => hname name hown j hne,
        fun name hheld hown => hname name hown j hne hheld⟩
  · intro name hfile
    rcases hstep.temps (h.stands.own i) hfile with hown | hleft | ⟨hold, hnotName, hnotLeft⟩
    · exact Or.inr ⟨i, Or.inl (by rwa [StoreClients.step, Threads.step_thread_self])⟩
    · exact Or.inr ⟨i, Or.inr (by rwa [StoreClients.step, Threads.step_thread_self])⟩
    · rcases h.temps name hold with hbefore | ⟨j, howner⟩
      · exact Or.inl hbefore
      · have hne : j ≠ i := by
          rintro rfl
          exact howner.elim hnotName hnotLeft
        exact Or.inr ⟨j, by rwa [StoreClients.step, Threads.step_thread_of_ne hne]⟩

omit [DecidableEq ι] in
/-- Everything said of a store is read off the invariant and the history of effects. The history
tells what was placed and dropped, and the clients what they were answered. -/
theorem StoreClients.Inv.sound {disk : StoreDisk} {history : List ShelfEvent}
    {clients : StoreClients ι} (h : clients.Inv sha256 disk history) :
    clients.Sound sha256 disk history where
  files := h.stands.shared.files
  addressed := h.stands.shared.addressed
  dropped := h.stands.shared.dropped
  temps := h.temps
  put i call artifact hput := by
    have hknows := h.stands.own i
    rw [hput] at hknows
    obtain ⟨hplaced, hrow⟩ := hknows
    -- the bytes are there right after the put, and go only with a drop
    obtain ⟨before, after, hsplit⟩ := List.append_of_mem hplaced.placed
    refine ⟨hplaced.digest, hplaced.size, hplaced.within, hrow, before, after, hsplit, ?_⟩
    intro hkept
    rw [h.stands.shared.files, hsplit, run_append, run_cons, Shelf.step, ← hplaced.digest]
    apply Shelf.run_ne_none hkept
    rw [Function.update_self]
    exact Option.some_ne_none _
  read i digest content hread := by
    have hknows := h.stands.own i
    rw [hread] at hknows
    exact hknows
  unaltered i digest exc hread := by
    have hknows := h.stands.own i
    rw [hread] at hknows
    exact hknows

/-- In every run of any number of clients, whatever the order of their operations and
whoever is killed on the way, the store is sound. -/
theorem store_clients_sound {disk : StoreDisk}
    (haddressed : ∀ digest content, disk.store.files digest = some content →
      sha256 content = digest)
    {events : List (ι × ClientAction)}
    (hdraws : Admits (StoreClients.step sha256) StoreClients.Draws (.start ι disk) events) :
    (run (StoreClients.step sha256) (.start ι disk) events).Sound sha256 disk
      (seen (StoreClients.step sha256) StoreClients.effect (.start ι disk) events) := by
  have hstart : (StoreClients.start ι disk).Inv sha256 disk [] := by
    refine ⟨⟨⟨rfl, haddressed, ?_⟩, fun _ => trivial, ?_⟩, fun _ hfile => Or.inl hfile⟩
    · intro digest nowUtc hdrop
      cases hdrop
    · intro i j _ name hname
      cases hname
  have hinv := hdraws.invariant_seen (fun history clients => clients.Inv sha256 disk history)
    (fun _ _ _ h hdraws => h.step hdraws) hstart
  exact hinv.sound

end Clients

/-! ## A writer that collects and a reader -/

/-- A log is stored and collected by one client. The other one opens it in between and reads it
when its file has gone. -/
def storedAndRead : List (Fin 2 × ClientAction) :=
  [(0, .put ⟨.bytes abc, expiringLog, epoch, true⟩ "artifact_a"), (0, .proceed ""),
    (1, .openVerified abcDigest.text), (0, .proceed ""), (0, .proceed ""), (0, .proceed ""),
    (1, .openVerified abcDigest.text), (1, .proceed ""), (0, .garbageCollect epoch false),
    (0, .proceed ""), (1, .proceed ""), (0, .kill)]

def emptyDisk : StoreDisk where
  store := emptyStore
  temps := []

/-- One client puts a log while another one reads it. -/
theorem store_clients_sound_log :
    (run (StoreClients.step fun _ => abcDigest) (.start (Fin 2) emptyDisk) storedAndRead).Sound
      (fun _ => abcDigest) emptyDisk
      (seen (StoreClients.step fun _ => abcDigest) StoreClients.effect (.start (Fin 2) emptyDisk)
        storedAndRead) := by
  apply store_clients_sound
  · intro digest content hcontent
    cases hcontent
  · refine ⟨?_, ?_, ?_, ?_, ?_, ?_, ?_, ?_, ?_, ?_, ?_, ?_, trivial⟩
    · intro call name _
      exact ⟨rfl, fun i hname => by cases hname⟩
    all_goals
      intro call name hput
      cases hput

example : (run (StoreClients.step fun _ => abcDigest) (.start (Fin 2) emptyDisk)
    storedAndRead).thread 1 = .opened abcDigest.text (.ok abc) := by rfl

end VerifierCI
