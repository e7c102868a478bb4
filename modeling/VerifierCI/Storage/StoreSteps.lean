import VerifierCI.Storage.StoreClients

/-! # The steps of a client

What one operation of a client can do to the disk and to the client itself. A
client that nobody interrupts does what the calls of the store do.
-/

namespace VerifierCI

open Python Relational Transition

/-! ## Temporary files -/

theorem lookup_cons_ite (name : String) (file : String × List UInt8)
    (rest : List (String × List UInt8)) : (file :: rest).lookup name =
      if name = file.1 then some file.2 else rest.lookup name := by
  rw [List.lookup_cons]
  by_cases heq : name = file.1
  · simp [heq]
  · rw [if_neg heq, beq_false_of_ne heq]

namespace StoreDisk

variable {disk : StoreDisk} {name other : String}

theorem createTemp_lookup : (disk.createTemp name).temps.lookup other =
    if other = name then some [] else disk.temps.lookup other :=
  lookup_cons_ite other (name, []) disk.temps

theorem appendTemp_lookup (chunk : List UInt8) : (disk.appendTemp name chunk).temps.lookup other =
    if other = name then (disk.temps.lookup other).map (· ++ chunk)
    else disk.temps.lookup other := by
  obtain ⟨store, temps⟩ := disk
  induction temps with
  | nil => simp [appendTemp]
  | cons file rest ih =>
      simp only [appendTemp] at ih ⊢
      rw [List.map_cons, lookup_cons_ite, lookup_cons_ite, ih]
      by_cases hother : other = file.1
      · subst hother
        by_cases hname : file.1 = name
        · simp [hname]
        · simp [hname]
      · have hkey : other ≠ (if file.1 = name then (file.1, file.2 ++ chunk) else file).1 := by
          split <;> exact hother
        rw [if_neg hkey, if_neg hother]

theorem unlinkTemp_lookup : (disk.unlinkTemp name).temps.lookup other =
    if other = name then none else disk.temps.lookup other := by
  obtain ⟨store, temps⟩ := disk
  induction temps with
  | nil => simp [unlinkTemp]
  | cons file rest ih =>
      simp only [unlinkTemp] at ih ⊢
      rw [lookup_cons_ite]
      by_cases hfile : file.1 = name
      · rw [List.filter_cons_of_neg (by simpa using hfile), ih]
        by_cases hother : other = name
        · rw [if_pos hother, if_pos hother]
        · rw [if_neg hother, if_neg hother, if_neg (hfile ▸ hother)]
      · rw [List.filter_cons_of_pos (by simpa using hfile), lookup_cons_ite, ih]
        by_cases hother : other = file.1
        · simp [hother, hfile]
        · simp [hother]

/-- A file that is there takes the place of the stored one. -/
theorem replaceTemp_eq {content : List UInt8} (h : disk.temps.lookup name = some content)
    (digest : Digest) : disk.replaceTemp name digest =
      { disk with store := disk.store.writeFile digest content }.unlinkTemp name := by
  rw [replaceTemp, h]

theorem replaceTemp_lookup (digest : Digest) : (disk.replaceTemp name digest).temps.lookup other =
    if other = name then none else disk.temps.lookup other := by
  rw [replaceTemp]
  cases hfile : disk.temps.lookup name with
  | none =>
      dsimp only
      split
      next heq => rw [heq, hfile]
      next => rfl
  | some content => exact unlinkTemp_lookup

end StoreDisk

/-! ## One step of a client -/

/-- What a client can do to the disk, to itself, and to the bytes under the digests. -/
inductive Client.Step (sha256 : List UInt8 → Digest) (disk : StoreDisk) :
    ClientAction → Client → StoreDisk → Client → Option ShelfEvent → Prop where
  | stay (action : ClientAction) (client : Client) : Step sha256 disk action client disk client none
  | create (call : PutCall) (name : String) {client : Client} {reads : List (List UInt8)}
      (hready : client.ready = true) (hreads : streamed reads = call.source.data) :
      Step sha256 disk (.put call name) client (disk.createTemp name)
        (.putting call (.copying name [] 0 reads)) none
  | reject (call : PutCall) (name : String) {client : Client} (exc : Exc)
      (hready : client.ready = true) :
      Step sha256 disk (.put call name) client disk (.put call (.error exc)) none
  | finish (refusal : String) (call : PutCall) (name : String) (fed : List UInt8)
      (totalBytes : Int) {reads : List (List UInt8)} (hdone : streamed reads = []) :
      Step sha256 disk (.proceed refusal) (.putting call (.copying name fed totalBytes reads)) disk
        (.putting call (.placing name fed totalBytes)) none
  | append (refusal : String) (call : PutCall) (name : String) (fed : List UInt8)
      (totalBytes : Int) {chunk : List UInt8} (rest : List (List UInt8)) (hchunk : chunk ≠ [])
      (hlimit : totalBytes + chunk.length ≤ call.options.maxBytes) :
      Step sha256 disk (.proceed refusal)
        (.putting call (.copying name fed totalBytes (chunk :: rest))) (disk.appendTemp name chunk)
        (.putting call (.copying name (fed ++ chunk) (totalBytes + chunk.length) rest)) none
  | fail (refusal : String) (call : PutCall) (stage : PutStage) (name : String) (exc : Exc)
      (hname : (Client.putting call stage).name? = some name) :
      Step sha256 disk (.proceed refusal) (.putting call stage) disk
        (.putting call (.failing name exc)) none
  | replace (refusal : String) (call : PutCall) (name : String) (fed : List UInt8)
      (totalBytes : Int) {content : List UInt8} (hfile : disk.temps.lookup name = some content) :
      Step sha256 disk (.proceed refusal) (.putting call (.placing name fed totalBytes))
        (disk.replaceTemp name (sha256 fed))
        (.putting call (.registering name (storedArtifact
          (disk.replaceTemp name (sha256 fed)).store (sha256 fed) totalBytes call.options
          call.now))) (some (.put content))
  | register (refusal : String) (call : PutCall) (name : String) (artifact : Artifact)
      (hregistered : (disk.registerOn call.conn artifact).1 = .ok artifact) :
      Step sha256 disk (.proceed refusal) (.putting call (.registering name artifact))
        (disk.registerOn call.conn artifact).2 (.put call (.ok artifact)) none
  | cleanUp (refusal : String) (call : PutCall) (name : String) (exc : Exc) :
      Step sha256 disk (.proceed refusal) (.putting call (.failing name exc))
        (disk.unlinkTemp name) (.put call (.error exc)) none
  | find (action : ClientAction) {client : Client} (digest : Digest)
      (hready : client.ready = true) : Step sha256 disk action client disk (.opening digest) none
  | missed (action : ClientAction) {client : Client} (digest : String) (exc : Exc)
      (hname : client.name? = none) (hleft : client.left? = none)
      (hexc : ∀ cls message, exc ≠ .verifierCI cls message .digestMismatch) :
      Step sha256 disk action client disk (.opened digest (.error exc)) none
  | openFile (refusal : String) {digest : Digest} {content : List UInt8}
      (hfile : disk.store.files digest = some content) :
      Step sha256 disk (.proceed refusal) (.opening digest) disk (.verifying digest content) none
  | verify (refusal : String) (digest : Digest) (content : List UInt8) :
      Step sha256 disk (.proceed refusal) (.verifying digest content) disk
        (Client.verify sha256 digest content disk) none
  | fetch (now : Datetime) (dryRun : Bool) {client : Client} (nowUtc : Datetime)
      (hready : client.ready = true) :
      Step sha256 disk (.garbageCollect now dryRun) client disk
        (.collecting nowUtc dryRun [] (collectableRows disk.store.db)) none
  | skip (refusal : String) (nowUtc : Datetime) (dryRun : Bool) (purged purged' : List Digest)
      (row : ArtifactRow) (rest : List ArtifactRow) :
      Step sha256 disk (.proceed refusal) (.collecting nowUtc dryRun purged (row :: rest)) disk
        (.collecting nowUtc dryRun purged' rest) none
  | drop (refusal : String) (nowUtc : Datetime) (purged : List Digest) {row : ArtifactRow}
      (rest : List ArtifactRow) (hexpired : row.expired nowUtc = true) :
      Step sha256 disk (.proceed refusal) (.collecting nowUtc false purged (row :: rest))
        { disk with store := disk.store.unlink row.digest }
        (.marking row.digest nowUtc purged rest) (some (.drop row.digest nowUtc))
  | mark (refusal : String) (digest : Digest) (nowUtc : Datetime) (purged : List Digest)
      (rows : List ArtifactRow) :
      Step sha256 disk (.proceed refusal) (.marking digest nowUtc purged rows)
        (disk.setUnavailable digest) (.collecting nowUtc false (purged ++ [digest]) rows) none
  | collected (action : ClientAction) {client : Client} (result : Except Exc (List Digest))
      (hname : client.name? = none) (hleft : client.left? = none) :
      Step sha256 disk action client disk (.collected result) none
  | kill (client : Client) :
      Step sha256 disk .kill client disk (.killed (client.name?.or client.left?)) none

section Act

variable {sha256 : List UInt8 → Digest} {disk : StoreDisk} {client : Client}
  {action : ClientAction}

theorem StoreDisk.registerOn_error {conn : Bool} {artifact : Artifact} {exc : Exc}
    (h : (disk.registerOn conn artifact).1 = .error exc) :
    (disk.registerOn conn artifact).2 = disk := by
  unfold registerOn at h ⊢
  split at h
  next hconn =>
    rw [if_pos hconn]
    cases hregistered : registerArtifact disk.store.db artifact with
    | error exc => rfl
    | ok db =>
        rw [hregistered] at h
        cases h
  next => cases h

theorem Client.name?_of_ready (h : client.ready = true) : client.name? = none := by
  cases client <;> first | rfl | cases h

theorem Client.left?_of_ready (h : client.ready = true) : client.left? = none := by
  cases client <;> first | rfl | cases h

theorem PutCall.copy_cons (call : PutCall) (name : String) (fed : List UInt8) (totalBytes : Int)
    {chunk : List UInt8} (hchunk : chunk ≠ []) (rest : List (List UInt8)) :
    call.copy disk name fed totalBytes (chunk :: rest) =
      if call.options.maxBytes < totalBytes + chunk.length then
        (disk, .putting call (.failing name (.verifierCI .validationError
          ("Artifact size exceeded limit of " ++ toString call.options.maxBytes ++
            " bytes (read " ++ toString (totalBytes + chunk.length) ++ " bytes).")
          .artifactLimit)))
      else
        (disk.appendTemp name chunk,
          .putting call (.copying name (fed ++ chunk) (totalBytes + chunk.length) rest)) := by
  cases chunk with
  | nil => exact absurd rfl hchunk
  | cons b chunk => rfl

theorem Client.step_copy (refusal : String) (call : PutCall) (name : String) (fed : List UInt8)
    (totalBytes : Int) (reads : List (List UInt8)) :
    Client.Step sha256 disk (.proceed refusal) (.putting call (.copying name fed totalBytes reads))
      (call.copy disk name fed totalBytes reads).1 (call.copy disk name fed totalBytes reads).2
      none := by
  cases reads with
  | nil => exact .finish refusal call name fed totalBytes rfl
  | cons chunk rest =>
      cases chunk with
      | nil => exact .finish refusal call name fed totalBytes rfl
      | cons b chunk =>
          rw [call.copy_cons name fed totalBytes (List.cons_ne_nil b chunk) rest]
          split
          next => exact .fail refusal call _ name _ rfl
          next hlimit =>
            exact .append refusal call name fed totalBytes rest (List.cons_ne_nil b chunk)
              (not_lt.mp hlimit)

/-- One case for each stage of a put; only the replacement of the target file has an effect. -/
theorem Client.step_put (refusal : String) (call : PutCall) (stage : PutStage) :
    Client.Step sha256 disk (.proceed refusal) (.putting call stage)
      (call.proceed sha256 disk stage).1 (call.proceed sha256 disk stage).2
      (Client.effect (.proceed refusal) disk (.putting call stage)) := by
  cases stage with
  | copying name fed totalBytes reads => exact step_copy refusal call name fed totalBytes reads
  | placing name fed totalBytes =>
      rw [PutCall.proceed, Client.effect]
      cases hfile : disk.temps.lookup name with
      | none => exact .fail refusal call _ name _ rfl
      | some content => exact .replace refusal call name fed totalBytes hfile
  | registering name artifact =>
      have hsame : ∀ registered, (disk.registerOn call.conn artifact).1 = .ok registered →
          registered = artifact := fun registered => StoreDisk.registerOn_ok
      have hrefused := @StoreDisk.registerOn_error disk call.conn artifact
      have hregister : (disk.registerOn call.conn artifact).1 = .ok artifact →
          Client.Step sha256 disk (.proceed refusal) (.putting call (.registering name artifact))
            (disk.registerOn call.conn artifact).2 (.put call (.ok artifact)) none :=
        .register refusal call name artifact
      have heffect : Client.effect (.proceed refusal) disk
        (.putting call (.registering name artifact)) = none := rfl
      rw [PutCall.proceed, heffect]
      generalize disk.registerOn call.conn artifact = outcome at hsame hrefused hregister
      obtain ⟨result, disk'⟩ := outcome
      cases result with
      | error exc =>
          obtain rfl : disk' = disk := hrefused rfl
          exact .fail refusal call _ name exc rfl
      | ok registered =>
          obtain rfl := hsame registered rfl
          exact hregister rfl
  | failing name exc => exact .cleanUp refusal call name exc

/-- A collector purges the file of the row it is at, as it was when the rows were read. -/
theorem Client.step_collect (refusal : String) (nowUtc : Datetime) (dryRun : Bool)
    (purged : List Digest) (rows : List ArtifactRow) :
    Client.Step sha256 disk (.proceed refusal) (.collecting nowUtc dryRun purged rows)
      (Client.collect nowUtc dryRun purged disk rows).1
      (Client.collect nowUtc dryRun purged disk rows).2
      (Client.effect (.proceed refusal) disk (.collecting nowUtc dryRun purged rows)) := by
  cases rows with
  | nil => cases dryRun <;> exact .collected _ _ rfl rfl
  | cons row rest =>
      have heffect : Client.effect (.proceed refusal) disk
          (.collecting nowUtc dryRun purged (row :: rest)) =
            if dryRun = false ∧ row.expired nowUtc = true then
              some (.drop row.digest nowUtc) else none := by
        cases dryRun with
        | true => rfl
        | false => simp [Client.effect]
      rw [Client.collect, heffect]
      cases hretention : row.retentionUntil with
      | none =>
          have hkeeps : ¬ (dryRun = false ∧ row.expired nowUtc = true) := by
            simp [ArtifactRow.expired, hretention]
          rw [if_neg hkeeps]
          exact .skip refusal nowUtc dryRun purged purged row rest
      | some retentionUntil =>
          cases hutc : retentionUtc? retentionUntil with
          | none =>
              have hkeeps : ¬ (dryRun = false ∧ row.expired nowUtc = true) := by
                simp [ArtifactRow.expired, hretention, hutc]
              rw [if_neg hkeeps]
              simp only [hutc]
              exact .collected _ _ rfl rfl
          | some retUtc =>
              have hexpired : row.expired nowUtc = decide (retUtc.micros ≤ nowUtc.micros) := by
                simp [ArtifactRow.expired, hretention, hutc]
              simp only [hutc, hexpired, decide_eq_true_eq]
              by_cases hover : retUtc.micros ≤ nowUtc.micros
              · cases dryRun with
                | true =>
                    simp only [hover, if_true, Bool.true_eq_false, false_and, if_false]
                    exact .skip refusal nowUtc true purged (purged ++ [row.digest]) row rest
                | false =>
                    simp only [hover, if_true, Bool.false_eq_true, and_self, if_false]
                    exact .drop refusal nowUtc purged rest (hexpired.trans (decide_eq_true hover))
              · simp only [hover, and_false, if_false]
                exact .skip refusal nowUtc dryRun purged purged row rest

theorem Client.step_begin (call : PutCall) (name : String) (hready : client.ready = true) :
    Client.Step sha256 disk (.put call name) client (call.begin disk name).1
      (call.begin disk name).2 none := by
  obtain ⟨source, options, now, conn⟩ := call
  cases source with
  | bytes data =>
      simp only [PutCall.begin]
      split
      next => exact .reject _ name _ hready
      next => exact .create _ name hready (streamed_bytesIoReads (Nat.lt_succ_self data.length))
  | stream chunks nonempty => exact .create _ name hready (streamed_eq_flatten nonempty)

theorem Client.step_beginCollect (now : Datetime) (dryRun : Bool)
    (hready : client.ready = true) :
    Client.Step sha256 disk (.garbageCollect now dryRun) client disk
      (Client.beginCollect now dryRun disk) none := by
  rw [Client.beginCollect]
  cases now.assumeUtc.astimezoneUtc? with
  | none => exact .collected _ _ (name?_of_ready hready) (left?_of_ready hready)
  | some nowUtc => exact .fetch now dryRun nowUtc hready

theorem Client.step_beginOpen (digest : String) (hready : client.ready = true) :
    Client.Step sha256 disk (.openVerified digest) client disk
      (Client.beginOpen sha256 digest disk) none := by
  have hname := name?_of_ready hready
  have hleft := left?_of_ready hready
  rw [Client.beginOpen]
  cases hdigest : validateDigest digest with
  | error exc =>
      refine .missed _ digest exc hname hleft ?_
      rintro cls message rfl
      cases validateDigest_error hdigest
  | ok valid =>
      dsimp only
      cases hfile : disk.store.files valid with
      | some content =>
          rw [ArtifactStore.stored, hfile]
          exact .find _ valid hready
      | none =>
          rw [ArtifactStore.stored, hfile]
          refine .missed _ valid.text _ hname hleft ?_
          intro cls message h
          cases h

theorem Client.step_open (refusal : String) (digest : Digest) :
    Client.Step sha256 disk (.proceed refusal) (.opening digest) disk
      (Client.open digest refusal disk) none := by
  rw [Client.open, ArtifactStore.stored]
  cases hfile : disk.store.files digest with
  | none =>
      refine .missed _ digest.text _ rfl rfl ?_
      intro cls message h
      cases h
  | some content => exact .openFile refusal hfile

/-- An action does what `Client.Step` says. -/
theorem Client.act_step (action : ClientAction) (disk : StoreDisk) (client : Client) :
    Client.Step sha256 disk action client (client.act sha256 action disk).1
      (client.act sha256 action disk).2 (client.effect action disk) := by
  cases action with
  | put call name =>
      rw [Client.act]
      split
      next hready =>
        exact step_begin call name hready
      next => exact .stay _ client
  | openVerified digest =>
      rw [Client.act]
      split
      next hready => exact step_beginOpen digest hready
      next => exact .stay _ client
  | garbageCollect now dryRun =>
      rw [Client.act]
      split
      next hready => exact step_beginCollect now dryRun hready
      next => exact .stay _ client
  | proceed refusal =>
      rw [Client.act]
      cases client with
      | putting call stage => exact step_put refusal call stage
      | opening digest => exact step_open refusal digest
      | verifying digest content => exact .verify refusal digest content
      | collecting nowUtc dryRun purged rows => exact step_collect refusal nowUtc dryRun purged rows
      | marking digest nowUtc purged rows => exact .mark refusal digest nowUtc purged rows
      | _ => exact .stay _ _
  | kill => exact .kill client

section Frame

variable {disk' : StoreDisk} {client' : Client} {effect : Option ShelfEvent}

/-- Rows are added, and their availability changes. -/
theorem Client.Step.keepsRows
    (h : Client.Step sha256 disk action client disk' client' effect) :
    disk.store.db.KeepsRows disk'.store.db := by
  cases h with
  | replace refusal call name fed totalBytes hfile =>
      rw [StoreDisk.replaceTemp_eq hfile]
      exact .refl disk.store.db
  | register refusal call name artifact hregistered =>
      unfold StoreDisk.registerOn at hregistered ⊢
      split at hregistered
      next hconn =>
        rw [if_pos hconn]
        cases hdb : registerArtifact disk.store.db artifact with
        | error exc => exact .refl disk.store.db
        | ok db => exact registerArtifact_keepsRows hdb
      next hconn =>
        rw [if_neg hconn]
        exact .refl disk.store.db
  | mark refusal digest => exact .setAvailable disk.store.db digest false
  | _ => exact .refl disk.store.db

/-- A client touches no temporary file but its own. -/
theorem Client.Step.lookup (h : Client.Step sha256 disk action client disk' client' effect)
    {name : String} (hname : client.name? ≠ some name) (hname' : client'.name? ≠ some name) :
    disk'.temps.lookup name = disk.temps.lookup name := by
  cases h with
  | create call own hready hreads =>
      rw [StoreDisk.createTemp_lookup, if_neg]
      rintro rfl
      exact hname' rfl
  | append refusal call own =>
      rw [StoreDisk.appendTemp_lookup, if_neg]
      rintro rfl
      exact hname rfl
  | replace refusal call own fed totalBytes hfile =>
      rw [StoreDisk.replaceTemp_lookup, if_neg]
      rintro rfl
      exact hname rfl
  | register refusal call own artifact hregistered => rw [StoreDisk.registerOn_temps]
  | cleanUp refusal call own =>
      rw [StoreDisk.unlinkTemp_lookup, if_neg]
      rintro rfl
      exact hname rfl
  | _ => rfl

/-- A put keeps its temporary file, and gets one only when it begins. -/
theorem Client.Step.name? (h : Client.Step sha256 disk action client disk' client' effect)
    {name : String} (hname : client'.name? = some name) :
    client.name? = some name ∨ ∃ call, action = .put call name := by
  cases h with
  | stay => exact Or.inl hname
  | create call own hready hreads =>
      obtain rfl := Option.some.inj hname
      exact Or.inr ⟨call, rfl⟩
  | fail refusal call stage own exc hown =>
      obtain rfl := Option.some.inj hname
      exact Or.inl hown
  | finish | append | replace => exact Or.inl hname
  | _ => cases hname

end Frame

end Act

/-! ## A client on its own -/

section Alone

variable (sha256 : List UInt8 → Digest) (names : TempNames)

/-- So many operations of one client, with nobody in between. -/
def Client.alone (refusal : String) (count : Nat) (state : StoreDisk × Client) :
    StoreDisk × Client :=
  (fun state => Client.proceed sha256 state.1 refusal state.2)^[count] state

variable {sha256 names} {disk : StoreDisk} (refusal : String)

/-- A client goes through a state to another one. -/
theorem Client.alone_trans {state middle final : StoreDisk × Client}
    (hfirst : ∃ count, Client.alone sha256 refusal count state = middle)
    (hsecond : ∃ count, Client.alone sha256 refusal count middle = final) :
    ∃ count, Client.alone sha256 refusal count state = final := by
  obtain ⟨first, rfl⟩ := hfirst
  obtain ⟨second, rfl⟩ := hsecond
  exact ⟨second + first, Function.iterate_add_apply _ second first state⟩

/-- By induction on the reads still to come. -/
theorem Client.copy_alone (call : PutCall) (name : String) (fed : List UInt8) (totalBytes : Int)
    (reads : List (List UInt8)) :
    ∃ count, Client.alone sha256 refusal count
        (disk, .putting call (.copying name fed totalBytes reads)) =
      match copyStream call.options.maxBytes name disk fed totalBytes reads with
      | (.error exc, disk) => (disk, .putting call (.failing name exc))
      | (.ok (fed, totalBytes), disk) => (disk, .putting call (.placing name fed totalBytes)) := by
  induction reads generalizing disk fed totalBytes with
  | nil => exact ⟨1, rfl⟩
  | cons chunk rest ih =>
      cases chunk with
      | nil => exact ⟨1, rfl⟩
      | cons b chunk =>
          have hstep : Client.alone sha256 refusal 1
              (disk, .putting call (.copying name fed totalBytes ((b :: chunk) :: rest))) =
                call.copy disk name fed totalBytes ((b :: chunk) :: rest) := rfl
          have hchunk := List.cons_ne_nil b chunk
          rw [copyStream_cons hchunk]
          rw [call.copy_cons name fed totalBytes hchunk rest] at hstep
          by_cases hlimit : call.options.maxBytes < totalBytes + (b :: chunk).length
          · rw [if_pos hlimit] at hstep ⊢
            exact ⟨1, hstep⟩
          · rw [if_neg hlimit] at hstep ⊢
            exact alone_trans refusal ⟨1, hstep⟩ (ih _ _)

theorem Client.register_alone (call : PutCall) (name : String) (artifact : Artifact) :
    ∃ count, Client.alone sha256 refusal count
        (disk, .putting call (.registering name artifact)) =
      match disk.registerOn call.conn artifact with
      | (.error exc, disk) => (disk.unlinkTemp name, .put call (.error exc))
      | (.ok artifact, disk) => (disk, .put call (.ok artifact)) := by
  have hstep : Client.alone sha256 refusal 1 (disk, .putting call (.registering name artifact)) =
      call.proceed sha256 disk (.registering name artifact) := rfl
  rw [PutCall.proceed] at hstep
  generalize disk.registerOn call.conn artifact = outcome at hstep ⊢
  obtain ⟨result, registered⟩ := outcome
  cases result with
  | error exc => exact alone_trans refusal ⟨1, hstep⟩ ⟨1, rfl⟩
  | ok artifact => exact ⟨1, hstep⟩

/-- A put with nobody in between is the put of one call. It takes one step for each chunk, one
to place the file and one to register the row. -/
theorem Client.put_alone (call : PutCall) :
    ∃ count, Client.alone sha256 refusal count
        (call.begin disk (names.mkstemp (disk.temps.map Prod.fst))) =
      ((disk.put sha256 names call).2, .put call (disk.put sha256 names call).1) := by
  have hstream : ∀ reads, ∃ count, Client.alone sha256 refusal count
        (disk.createTemp (names.mkstemp (disk.temps.map Prod.fst)),
          .putting call (.copying (names.mkstemp (disk.temps.map Prod.fst)) [] 0 reads)) =
      ((disk.putStream sha256 names call.conn reads call.options call.now).2,
        .put call (disk.putStream sha256 names call.conn reads call.options call.now).1) := by
    intro reads
    have hfresh := names.fresh (disk.temps.map Prod.fst)
    rw [StoreDisk.putStream]
    generalize names.mkstemp (disk.temps.map Prod.fst) = name at hfresh ⊢
    refine alone_trans refusal (copy_alone refusal call name [] 0 reads) ?_
    obtain ⟨held, hcopy, hheld⟩ := @copyStream_eq call.options.maxBytes 0 [] reads name disk.temps
      hfresh disk.store
    -- the name is fresh, so the file under it is the put's own and `os.replace` finds it
    rw [StoreDisk.putTemp, StoreDisk.createTemp, hcopy]
    cases readStream call.options.maxBytes [] 0 reads with
    | error exc => exact ⟨1, rfl⟩
    | ok result =>
        obtain ⟨content, totalBytes⟩ := result
        dsimp only
        have hplace : Client.alone sha256 refusal 1
            (⟨disk.store, (name, held) :: disk.temps⟩,
              .putting call (.placing name content totalBytes)) =
            call.proceed sha256 ⟨disk.store, (name, held) :: disk.temps⟩
              (.placing name content totalBytes) := rfl
        rw [PutCall.proceed, List.lookup_cons_self] at hplace
        dsimp only at hplace
        generalize StoreDisk.replaceTemp _ name (sha256 content) = placed at hplace ⊢
        obtain ⟨count, hregister⟩ := @register_alone sha256 placed refusal call name
          (storedArtifact placed.store (sha256 content) totalBytes call.options call.now)
        refine alone_trans refusal ⟨1, hplace⟩ ⟨count, hregister.trans ?_⟩
        generalize placed.registerOn call.conn _ = outcome
        obtain ⟨result, registered⟩ := outcome
        cases result <;> rfl
  obtain ⟨source, options, now, conn⟩ := call
  cases source with
  | bytes data =>
      simp only [StoreDisk.put, StoreDisk.putBytes, PutCall.begin]
      by_cases hlimit : options.maxBytes < data.length
      · rw [if_pos hlimit, if_pos hlimit]
        exact ⟨0, rfl⟩
      · rw [if_neg hlimit, if_neg hlimit]
        exact hstream _
  | stream chunks nonempty => exact hstream chunks

/-- A read with nobody in between is the read of one call. -/
theorem Client.open_alone (digest : String) :
    ∃ count, Client.alone sha256 refusal count (disk, Client.beginOpen sha256 digest disk) =
      (disk, .opened digest (disk.store.openVerified sha256 digest)) := by
  rw [Client.beginOpen, ArtifactStore.openVerified]
  cases hdigest : validateDigest digest with
  | error exc => exact ⟨0, rfl⟩
  | ok valid =>
      obtain rfl := validateDigest_ok_iff.mp hdigest
      simp only [bind, Except.bind]
      cases hfile : disk.store.stored valid with
      | regular content =>
          have hopen : Client.alone sha256 refusal 1 (disk, .opening valid) =
              (disk, Client.open valid refusal disk) := rfl
          rw [Client.open, hfile] at hopen
          exact alone_trans refusal ⟨1, hopen⟩ ⟨1, rfl⟩
      | _ => exact ⟨0, rfl⟩

/-- By induction on the rows still to come. A row takes one step or two, and a row that cannot
be read ends the loop as it does in one call. -/
theorem Client.collect_alone (nowUtc : Datetime) (dryRun : Bool) (purged : List Digest)
    (rows : List ArtifactRow) :
    ∃ count, Client.alone sha256 refusal count (disk, .collecting nowUtc dryRun purged rows) =
      ({ disk with store := (collectRows nowUtc dryRun disk.store purged rows).2 },
        .collected (collectRows nowUtc dryRun disk.store purged rows).1) := by
  induction rows generalizing disk purged with
  | nil => exact ⟨1, rfl⟩
  | cons row rest ih =>
      have hstep : Client.alone sha256 refusal 1
          (disk, .collecting nowUtc dryRun purged (row :: rest)) =
            Client.collect nowUtc dryRun purged disk (row :: rest) := rfl
      rw [Client.collect] at hstep
      rw [collectRows]
      cases hretention : row.retentionUntil with
      | none =>
          rw [hretention] at hstep
          exact alone_trans refusal ⟨1, hstep⟩ (ih purged)
      | some retentionUntil =>
          rw [hretention] at hstep
          cases hutc : retentionUtc? retentionUntil with
          | none =>
              simp only [hutc] at hstep ⊢
              exact ⟨1, hstep⟩
          | some retUtc =>
              simp only [hutc] at hstep ⊢
              by_cases hover : retUtc.micros ≤ nowUtc.micros
              · rw [if_pos hover] at hstep ⊢
                cases dryRun with
                | true => exact alone_trans refusal ⟨1, hstep⟩ (ih _)
                | false =>
                    -- the row is marked before the next one is looked at
                    exact alone_trans refusal (alone_trans refusal ⟨1, hstep⟩ ⟨1, rfl⟩) (ih _)
              · rw [if_neg hover] at hstep ⊢
                exact alone_trans refusal ⟨1, hstep⟩ (ih purged)

/-- A collection with nobody in between is the collection of one call. -/
theorem Client.garbageCollect_alone (now : Datetime) (dryRun : Bool) :
    ∃ count, Client.alone sha256 refusal count (disk, Client.beginCollect now dryRun disk) =
      ((disk.garbageCollect now dryRun).2, .collected (disk.garbageCollect now dryRun).1) := by
  rw [Client.beginCollect, StoreDisk.garbageCollect, VerifierCI.garbageCollect]
  cases now.assumeUtc.astimezoneUtc? with
  | none => exact ⟨0, rfl⟩
  | some nowUtc => exact collect_alone refusal nowUtc dryRun [] _

end Alone

end VerifierCI
