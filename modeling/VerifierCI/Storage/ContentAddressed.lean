import Mathlib.Algebra.Order.BigOperators.Group.List
import VerifierCI.Storage.Custody
import VerifierCI.Storage.VerifiedReads

/-! # The store as a map from digests to bytes

Bytes are first written to a temporary file, which takes the place of the stored one when
all of them have been hashed. A stream is measured chunk by chunk, so one without chunks
is not measured at all.
-/

namespace VerifierCI

open Python Relational Transition Custody

/-! ## Temporary files -/

/-- The names `tempfile.mkstemp` chooses. -/
structure TempNames where
  mkstemp : List String → String
  fresh : ∀ names, mkstemp names ∉ names

/-- The store, and the files under `root/tmp`. -/
structure StoreDisk where
  store : ArtifactStore
  temps : List (String × List UInt8)

namespace StoreDisk

variable (disk : StoreDisk)

def createTemp (name : String) : StoreDisk :=
  { disk with temps := (name, []) :: disk.temps }

def appendTemp (name : String) (chunk : List UInt8) : StoreDisk :=
  { disk with
    temps := disk.temps.map fun file =>
      if file.1 = name then (file.1, file.2 ++ chunk) else file }

/-- `temp_path.unlink()`, if it exists. -/
def unlinkTemp (name : String) : StoreDisk :=
  { disk with temps := disk.temps.filter fun file => file.1 ≠ name }

/-- `os.replace(temp_path, target_path)`. -/
def replaceTemp (name : String) (digest : Digest) : StoreDisk :=
  match disk.temps.lookup name with
  | none => disk
  | some content => { disk with store := disk.store.writeFile digest content }.unlinkTemp name

/-- Register an artifact if there is a connection to do it on. -/
def registerOn (conn : Bool) (artifact : Artifact) : Except Exc Artifact × StoreDisk :=
  if conn then
    match registerArtifact disk.store.db artifact with
    | .error exc => (.error exc, disk)
    | .ok db => (.ok artifact, { disk with store := { disk.store with db := db } })
  else (.ok artifact, disk)

end StoreDisk

/-- The read loop of `put_stream`, with what the hasher has been fed and its length. -/
def copyStream (maxBytes : Int) (name : String) (disk : StoreDisk) (fed : List UInt8)
    (totalBytes : Int) : List (List UInt8) → Except Exc (List UInt8 × Int) × StoreDisk
  | [] => (.ok (fed, totalBytes), disk)
  | [] :: _ => (.ok (fed, totalBytes), disk)
  | chunk :: rest =>
      let totalBytes := totalBytes + chunk.length
      if maxBytes < totalBytes then
        (.error (.verifierCI .validationError
          ("Artifact size exceeded limit of " ++ toString maxBytes ++ " bytes (read " ++
            toString totalBytes ++ " bytes).") .artifactLimit), disk)
      else copyStream maxBytes name (disk.appendTemp name chunk) (fed ++ chunk) totalBytes rest

section Put

variable (sha256 : List UInt8 → Digest) (names : TempNames)

def storedArtifact (store : ArtifactStore) (digest : Digest) (totalBytes : Int)
    (options : PutOptions) (now : Datetime) : Artifact where
  digest := digest
  kind := options.kind
  sizeBytes := totalBytes
  storageUri := store.targetPath digest
  mediaType := options.mediaType
  accessPolicy := options.accessPolicy
  retentionUntil := options.retentionUntil
  available := true
  createdAt := now

namespace StoreDisk

/-- `put_stream`, behind `mkstemp`. Whatever is raised takes the temporary file with it. -/
def putTemp (disk : StoreDisk) (name : String) (conn : Bool) (reads : List (List UInt8))
    (options : PutOptions) (now : Datetime) : Except Exc Artifact × StoreDisk :=
  match copyStream options.maxBytes name disk [] 0 reads with
  | (.error exc, disk) => (.error exc, disk.unlinkTemp name)
  | (.ok (fed, totalBytes), disk) =>
      let disk := disk.replaceTemp name (sha256 fed)
      let artifact := storedArtifact disk.store (sha256 fed) totalBytes options now
      match disk.registerOn conn artifact with
      | (.error exc, disk) => (.error exc, disk.unlinkTemp name)
      | (.ok artifact, disk) => (.ok artifact, disk)

/-- `put_stream(root, stream, …)`. -/
def putStream (disk : StoreDisk) (conn : Bool) (reads : List (List UInt8)) (options : PutOptions)
    (now : Datetime) : Except Exc Artifact × StoreDisk :=
  let name := names.mkstemp (disk.temps.map Prod.fst)
  (disk.createTemp name).putTemp sha256 name conn reads options now

/-- `put_bytes(root, data, …)`. -/
def putBytes (disk : StoreDisk) (conn : Bool) (data : List UInt8) (options : PutOptions)
    (now : Datetime) : Except Exc Artifact × StoreDisk :=
  if options.maxBytes < data.length then
    (.error (.verifierCI .validationError
      ("Artifact size exceeded limit of " ++ toString options.maxBytes ++ " bytes (got " ++
        toString data.length ++ " bytes).") .artifactLimit), disk)
  else disk.putStream sha256 names conn (bytesIoReads (data.length + 1) data) options now

/-- `garbage_collect(root, conn, now, dry_run=dry_run)`. -/
def garbageCollect (disk : StoreDisk) (now : Datetime) (dryRun : Bool) :
    Except Exc (List Digest) × StoreDisk :=
  let (result, store) := VerifierCI.garbageCollect disk.store now dryRun
  (result, { disk with store := store })

end StoreDisk

/-! ## Streams -/

def streamed (reads : List (List UInt8)) : List UInt8 :=
  (reads.takeWhile fun chunk => chunk ≠ []).flatten

theorem streamed_cons {chunk : List UInt8} (hchunk : chunk ≠ []) (rest : List (List UInt8)) :
    streamed (chunk :: rest) = chunk ++ streamed rest := by
  rw [streamed, List.takeWhile_cons_of_pos (by simpa using hchunk), List.flatten_cons, streamed]

/-- Chunks that are not empty are all read. -/
theorem streamed_eq_flatten {chunks : List (List UInt8)} (h : ∀ chunk ∈ chunks, chunk ≠ []) :
    streamed chunks = chunks.flatten := by
  rw [streamed, List.takeWhile_eq_self_iff.mpr (by simpa using h)]

/-- Reading chunk by chunk up to the first empty read gives all the bytes. -/
theorem streamed_bytesIoReads {fuel : Nat} {data : List UInt8} (hfuel : data.length < fuel) :
    streamed (bytesIoReads fuel data) = data := by
  induction fuel generalizing data with
  | zero => exact absurd hfuel (Nat.not_lt_zero _)
  | succ fuel ih =>
      rw [bytesIoReads]
      cases data with
      | nil => rfl
      | cons b rest =>
          have hchunk : (b :: rest).take chunkSize ≠ [] := by
            rw [chunkSize]
            simp
          have hdrop : ((b :: rest).drop chunkSize).length < fuel := by
            have hpos : 0 < chunkSize := by decide
            rw [List.length_drop]
            rw [List.length_cons] at hfuel ⊢
            omega
          rw [streamed_cons hchunk, ih hdrop, List.take_append_drop]

section Loop

variable {maxBytes totalBytes : Int} {content : List UInt8} {reads : List (List UInt8)}

theorem readStream_cons {chunk : List UInt8} (hchunk : chunk ≠ []) :
    readStream maxBytes content totalBytes (chunk :: reads) =
      if maxBytes < totalBytes + chunk.length then
        .error (.verifierCI .validationError
          ("Artifact size exceeded limit of " ++ toString maxBytes ++ " bytes (read " ++
            toString (totalBytes + chunk.length) ++ " bytes).") .artifactLimit)
      else readStream maxBytes (content ++ chunk) (totalBytes + chunk.length) reads := by
  cases chunk with
  | nil => exact absurd rfl hchunk
  | cons b chunk => rfl

/-- A stream is read to its end if it is empty or within the limit. By induction on the chunks,
since the limit is compared after each of them. -/
theorem readStream_eq : (streamed reads = [] ∨
      totalBytes + (streamed reads).length ≤ maxBytes) ∧
        readStream maxBytes content totalBytes reads =
          .ok (content ++ streamed reads, totalBytes + (streamed reads).length) ∨
    (streamed reads ≠ [] ∧ maxBytes < totalBytes + (streamed reads).length) ∧
      ∃ message, readStream maxBytes content totalBytes reads =
        .error (.verifierCI .validationError message .artifactLimit) := by
  induction reads generalizing content totalBytes with
  | nil => simp [streamed, readStream]
  | cons chunk rest ih =>
      by_cases hchunk : chunk = []
      · subst hchunk
        simp [streamed, readStream]
      · rw [readStream_cons hchunk, streamed_cons hchunk, List.length_append, Int.natCast_add,
          ← Int.add_assoc, ← List.append_assoc]
        by_cases hlimit : maxBytes < totalBytes + chunk.length
        · rw [if_pos hlimit]
          refine Or.inr ⟨⟨by simp [hchunk], by omega⟩, _, rfl⟩
        · rw [if_neg hlimit]
          rcases @ih (totalBytes + chunk.length) (content ++ chunk) with
            ⟨hfits, hread⟩ | ⟨⟨hne, hover⟩, hread⟩
          · refine Or.inl ⟨Or.inr ?_, hread⟩
            rcases hfits with hnil | hfits
            · rw [hnil]
              simp only [List.length_nil]
              omega
            · exact hfits
          · exact Or.inr ⟨⟨by simp [hchunk], hover⟩, hread⟩

theorem copyStream_cons {name : String} {disk : StoreDisk} {chunk : List UInt8}
    (hchunk : chunk ≠ []) : copyStream maxBytes name disk content totalBytes (chunk :: reads) =
      if maxBytes < totalBytes + chunk.length then
        (.error (.verifierCI .validationError
          ("Artifact size exceeded limit of " ++ toString maxBytes ++ " bytes (read " ++
            toString (totalBytes + chunk.length) ++ " bytes).") .artifactLimit), disk)
      else copyStream maxBytes name (disk.appendTemp name chunk) (content ++ chunk)
        (totalBytes + chunk.length) reads := by
  cases chunk with
  | nil => exact absurd rfl hchunk
  | cons b chunk => rfl

/-- The temporary file holds what the hasher has been fed. By induction on the chunks: each is
written to the file and fed to the hasher before the next one is read. -/
theorem copyStream_eq (name : String) {others : List (String × List UInt8)}
    (hfresh : name ∉ others.map Prod.fst) (store : ArtifactStore) :
    ∃ held, copyStream maxBytes name ⟨store, (name, content) :: others⟩ content totalBytes reads =
        (readStream maxBytes content totalBytes reads, ⟨store, (name, held) :: others⟩) ∧
      ∀ result, readStream maxBytes content totalBytes reads = .ok result → held = result.1 := by
  induction reads generalizing content totalBytes with
  | nil =>
      refine ⟨content, rfl, fun result h => ?_⟩
      obtain rfl := Except.ok.inj h
      rfl
  | cons chunk rest ih =>
      cases chunk with
      | nil =>
          refine ⟨content, rfl, fun result h => ?_⟩
          obtain rfl := Except.ok.inj h
          rfl
      | cons b chunk =>
          have happend : StoreDisk.appendTemp ⟨store, (name, content) :: others⟩ name (b :: chunk) =
              ⟨store, (name, content ++ b :: chunk) :: others⟩ := by
            have hothers : (others.map fun file : String × List UInt8 =>
                if file.1 = name then (file.1, file.2 ++ b :: chunk) else file) = others := by
              conv => rhs; rw [← List.map_id others]
              apply List.map_congr_left
              intro file hfile
              rw [if_neg]
              · rfl
              · rintro rfl
                exact hfresh (List.mem_map_of_mem hfile)
            rw [StoreDisk.appendTemp, List.map_cons, if_pos rfl, hothers]
          rw [copyStream_cons (List.cons_ne_nil b chunk),
            readStream_cons (List.cons_ne_nil b chunk), happend]
          by_cases hlimit : maxBytes < totalBytes + (b :: chunk).length
          · rw [if_pos hlimit, if_pos hlimit]
            refine ⟨content, rfl, fun result h => ?_⟩
            cases h
          · rw [if_neg hlimit, if_neg hlimit]
            exact ih

end Loop

/-! ## Puts -/

namespace StoreDisk

variable {disk : StoreDisk} {conn : Bool} {reads : List (List UInt8)} {options : PutOptions}
  {now : Datetime}

theorem unlinkTemp_fresh {name : String} {others : List (String × List UInt8)}
    (hfresh : name ∉ others.map Prod.fst) (store : ArtifactStore) :
    unlinkTemp ⟨store, others⟩ name = ⟨store, others⟩ := by
  have hothers : (others.filter fun file : String × List UInt8 => file.1 ≠ name) = others := by
    rw [List.filter_eq_self]
    intro file hfile
    rw [decide_eq_true_eq]
    rintro rfl
    exact hfresh (List.mem_map_of_mem hfile)
  rw [unlinkTemp, hothers]

theorem unlinkTemp_cons {name : String} {others : List (String × List UInt8)}
    (hfresh : name ∉ others.map Prod.fst) (store : ArtifactStore) (content : List UInt8) :
    unlinkTemp ⟨store, (name, content) :: others⟩ name = ⟨store, others⟩ := by
  rw [← unlinkTemp_fresh hfresh store, unlinkTemp, unlinkTemp, List.filter_cons_of_neg (by simp)]

theorem registerOn_temps (artifact : Artifact) :
    (disk.registerOn conn artifact).2.temps = disk.temps := by
  unfold registerOn
  split
  · split <;> rfl
  · rfl

theorem registerOn_files (artifact : Artifact) :
    (disk.registerOn conn artifact).2.store.files = disk.store.files := by
  unfold registerOn
  split
  · split <;> rfl
  · rfl

theorem registerOn_unlinkTemp {name : String} {others : List (String × List UInt8)}
    (hfresh : name ∉ others.map Prod.fst) (store : ArtifactStore) (artifact : Artifact) :
    (match registerOn ⟨store, others⟩ conn artifact with
      | (.error exc, disk) => (.error exc, disk.unlinkTemp name)
      | (.ok artifact, disk) => (.ok artifact, disk)) =
        registerOn ⟨store, others⟩ conn artifact := by
  have htemps := @registerOn_temps ⟨store, others⟩ conn artifact
  generalize registerOn ⟨store, others⟩ conn artifact = outcome at htemps
  obtain ⟨result, disk⟩ := outcome
  obtain ⟨store', temps⟩ := disk
  obtain rfl : temps = others := htemps
  cases result with
  | ok artifact => rfl
  | error exc => simp only [unlinkTemp_fresh hfresh]

/-- With a temporary name nobody uses, a put leaves the other temporary files alone and its own
behind nowhere. -/
theorem putTemp_eq {name : String} {others : List (String × List UInt8)}
    (hfresh : name ∉ others.map Prod.fst) (store : ArtifactStore) :
    putTemp sha256 ⟨store, (name, []) :: others⟩ name conn reads options now =
      match readStream options.maxBytes [] 0 reads with
      | .error exc => (.error exc, ⟨store, others⟩)
      | .ok (content, totalBytes) =>
          registerOn ⟨store.writeFile (sha256 content) content, others⟩ conn
            (storedArtifact (store.writeFile (sha256 content) content) (sha256 content) totalBytes
              options now) := by
  obtain ⟨held, hcopy, hheld⟩ := @copyStream_eq options.maxBytes 0 [] reads name others hfresh store
  rw [putTemp, hcopy]
  cases hread : readStream options.maxBytes [] 0 reads with
  | error exc => simp only [unlinkTemp_cons hfresh]
  | ok result =>
      obtain ⟨content, totalBytes⟩ := result
      obtain rfl : held = content := hheld _ hread
      have hreplace : replaceTemp ⟨store, (name, held) :: others⟩ name (sha256 held) =
          ⟨store.writeFile (sha256 held) held, others⟩ := by
        rw [replaceTemp, List.lookup_cons_self]
        exact unlinkTemp_cons hfresh _ held
      simp only [hreplace]
      exact registerOn_unlinkTemp hfresh _ _

/-- The temporary file is gone in the end, and what a put does is read off the stream. -/
theorem putStream_eq : disk.putStream sha256 names conn reads options now =
    match readStream options.maxBytes [] 0 reads with
    | .error exc => (.error exc, disk)
    | .ok (content, totalBytes) =>
        registerOn ⟨disk.store.writeFile (sha256 content) content, disk.temps⟩ conn
          (storedArtifact (disk.store.writeFile (sha256 content) content) (sha256 content)
            totalBytes options now) :=
  putTemp_eq sha256 (names.fresh (disk.temps.map Prod.fst)) disk.store

/-- With a connection, the put is the one the store without temporary files makes. -/
theorem putStream_refines : disk.putStream sha256 names true reads options now =
    ((VerifierCI.putStream sha256 disk.store reads options now).1,
      { disk with store := (VerifierCI.putStream sha256 disk.store reads options now).2 }) := by
  rw [putStream_eq, VerifierCI.putStream]
  cases readStream options.maxBytes [] 0 reads with
  | error exc => rfl
  | ok result =>
      obtain ⟨content, totalBytes⟩ := result
      simp only [registerOn, if_true, storedArtifact]
      generalize registerArtifact _ _ = registered
      cases registered <;> rfl

/-- The bytes of a stream are stored if there are none of them or no more than the limit. -/
theorem putStream_cases : (streamed reads = [] ∨
      ((streamed reads).length : Int) ≤ options.maxBytes) ∧
      disk.putStream sha256 names conn reads options now = registerOn
        ⟨disk.store.writeFile (sha256 (streamed reads)) (streamed reads), disk.temps⟩ conn
        (storedArtifact (disk.store.writeFile (sha256 (streamed reads)) (streamed reads))
          (sha256 (streamed reads)) (streamed reads).length options now) ∨
    (streamed reads ≠ [] ∧ options.maxBytes < (streamed reads).length) ∧
      ∃ message, disk.putStream sha256 names conn reads options now =
        (.error (.verifierCI .validationError message .artifactLimit), disk) := by
  rw [putStream_eq]
  rcases @readStream_eq options.maxBytes 0 [] reads with
    ⟨hfits, hread⟩ | ⟨⟨hne, hover⟩, message, hread⟩
  · rw [Int.zero_add] at hfits
    refine Or.inl ⟨hfits, ?_⟩
    rw [hread]
    simp only [List.nil_append, Int.zero_add]
  · rw [Int.zero_add] at hover
    refine Or.inr ⟨⟨hne, hover⟩, message, ?_⟩
    rw [hread]

/-- Registering fails on a size that does not fit its column, and on nothing else. -/
theorem registerArtifact_ok_iff {db : Db} {artifact : Artifact} (hsize : 0 ≤ artifact.sizeBytes) :
    (∃ db', registerArtifact db artifact = .ok db') ↔ artifact.sizeBytes ≤ maxInteger := by
  have hbind : bindInteger (some artifact.sizeBytes) = .ok () ↔
      artifact.sizeBytes ≤ maxInteger := by
    rw [bindInteger]
    split
    next hfits => exact iff_of_true rfl (hfits _ rfl).2
    next hfits =>
      refine iff_of_false (by simp) fun hle => hfits ?_
      rintro _ ⟨⟩
      exact ⟨le_trans (by decide) hsize, hle⟩
  rw [← hbind]
  constructor
  · rintro ⟨db', h⟩
    exact (bind_eq_ok_unit.mp h).1
  · intro hfits
    rw [registerArtifact, hfits]
    simp only [if_neg (not_lt.mpr hsize)]
    cases db.artifacts.insert? artifact.toRow with
    | none => exact ⟨_, rfl⟩
    | some artifacts => exact ⟨_, rfl⟩

theorem registerOn_ok {artifact registered : Artifact}
    (h : (disk.registerOn conn artifact).1 = .ok registered) : registered = artifact := by
  unfold registerOn at h
  split at h
  · split at h
    · cases h
    · exact (Except.ok.inj h).symm
  · exact (Except.ok.inj h).symm

/-- Registration fails only over a size that no column takes. -/
theorem registerOn_ok_iff {artifact : Artifact} (hsize : 0 ≤ artifact.sizeBytes) :
    (∃ registered, (disk.registerOn conn artifact).1 = .ok registered) ↔
      (conn = true → artifact.sizeBytes ≤ maxInteger) := by
  rw [← @registerArtifact_ok_iff disk.store.db artifact hsize, registerOn]
  cases conn with
  | false => simp
  | true =>
      simp only [if_true, forall_const]
      cases registerArtifact disk.store.db artifact with
      | error exc => simp
      | ok db => simp

end StoreDisk

end Put

/-! ## Calls -/

/-- Bytes in memory, or a stream that is read in chunks. -/
inductive PutSource where
  | bytes (data : List UInt8)
  | stream (chunks : List (List UInt8)) (nonempty : ∀ chunk ∈ chunks, chunk ≠ [])

def PutSource.data : PutSource → List UInt8
  | .bytes data => data
  | .stream chunks _ => chunks.flatten

/-- Nothing of the source is ever compared with the limit. -/
def PutSource.Unmeasured : PutSource → Prop
  | .bytes _ => False
  | .stream chunks _ => chunks = []

theorem length_of_unmeasured (source : PutSource) (h : source.Unmeasured) :
    source.data.length = 0 := by
  cases source with
  | bytes data => exact absurd h not_false
  | stream chunks hchunks =>
      obtain rfl : chunks = [] := h
      rfl

structure PutCall where
  source : PutSource
  options : PutOptions
  now : Datetime
  /-- Is a connection given? -/
  conn : Bool

/-- The stream has a byte or the limit is not negative, and the size of what is registered
fits its column. -/
structure PutCall.Measured (call : PutCall) : Prop where
  compared : call.source.Unmeasured → 0 ≤ call.options.maxBytes
  fits : call.conn = true → (call.source.data.length : Int) ≤ call.options.maxBytes →
    (call.source.data.length : Int) ≤ maxInteger

section Call

variable (sha256 : List UInt8 → Digest) (names : TempNames)

def StoreDisk.put (disk : StoreDisk) (call : PutCall) : Except Exc Artifact × StoreDisk :=
  match call.source with
  | .bytes data => disk.putBytes sha256 names call.conn data call.options call.now
  | .stream chunks _ => disk.putStream sha256 names call.conn chunks call.options call.now

/-- A put succeeds within its limit, with the digest and the size of the bytes, which are
then stored. A put that fails stores nothing. -/
structure PutSpec (disk : StoreDisk) (call : PutCall) : Prop where
  succeeds : (∃ artifact, (disk.put sha256 names call).1 = .ok artifact) ↔
    (call.source.data.length : Int) ≤ call.options.maxBytes
  returns : ∀ artifact, (disk.put sha256 names call).1 = .ok artifact →
    artifact.digest = sha256 call.source.data ∧ artifact.sizeBytes = call.source.data.length
  stores : ∀ artifact, (disk.put sha256 names call).1 = .ok artifact →
    (disk.put sha256 names call).2.store.files =
      Function.update disk.store.files (sha256 call.source.data) (some call.source.data)
  fails : ∀ exc, (disk.put sha256 names call).1 = .error exc →
    (disk.put sha256 names call).2.store.files = disk.store.files
  temps : (disk.put sha256 names call).2.temps = disk.temps

variable {sha256 names} {disk : StoreDisk} {call : PutCall}

/-- What a put does is read off its bytes. Bytes are measured before they are streamed, a stream
is measured while it is read. -/
theorem put_cases : (call.source.Unmeasured ∨
      (call.source.data.length : Int) ≤ call.options.maxBytes) ∧
        disk.put sha256 names call = StoreDisk.registerOn
          ⟨disk.store.writeFile (sha256 call.source.data) call.source.data, disk.temps⟩ call.conn
          (storedArtifact (disk.store.writeFile (sha256 call.source.data) call.source.data)
            (sha256 call.source.data) call.source.data.length call.options call.now) ∨
    (¬ call.source.Unmeasured ∧ call.options.maxBytes < call.source.data.length) ∧
      ∃ message, disk.put sha256 names call =
        (.error (.verifierCI .validationError message .artifactLimit), disk) := by
  obtain ⟨source, options, now, conn⟩ := call
  cases source with
  | bytes data =>
      simp only [StoreDisk.put, StoreDisk.putBytes, PutSource.data, PutSource.Unmeasured]
      by_cases hlimit : options.maxBytes < data.length
      · rw [if_pos hlimit]
        exact Or.inr ⟨⟨not_false, hlimit⟩, _, rfl⟩
      · rw [if_neg hlimit]
        -- Bytes are measured before they are streamed, so the stream stays within the limit.
        have hstream := streamed_bytesIoReads (Nat.lt_succ_self data.length)
        rcases @StoreDisk.putStream_cases sha256 names disk conn
            (bytesIoReads (data.length + 1) data) options now with ⟨_, hput⟩ | ⟨⟨_, hover⟩, _⟩
        · rw [hstream] at hput
          exact Or.inl ⟨Or.inr (not_lt.mp hlimit), hput⟩
        · rw [hstream] at hover
          exact absurd hover hlimit
  | stream chunks hchunks =>
      simp only [StoreDisk.put, PutSource.data, PutSource.Unmeasured]
      have hempty : chunks.flatten = [] ↔ chunks = [] := by
        constructor
        · intro h
          cases chunks with
          | nil => rfl
          | cons chunk rest =>
              rw [List.flatten_cons, List.append_eq_nil_iff] at h
              exact absurd h.1 (hchunks chunk List.mem_cons_self)
        · rintro rfl
          rfl
      have hcases := @StoreDisk.putStream_cases sha256 names disk conn chunks options now
      rw [streamed_eq_flatten hchunks, ne_eq, hempty] at hcases
      exact hcases

/-- A put is what it should be exactly if its bytes are measured and can be registered. -/
theorem putSpec_iff : PutSpec sha256 names disk call ↔ call.Measured := by
  have hsize : (0 : Int) ≤ (storedArtifact
      (disk.store.writeFile (sha256 call.source.data) call.source.data)
        (sha256 call.source.data) call.source.data.length call.options call.now).sizeBytes :=
    Int.natCast_nonneg _
  have hregister := @StoreDisk.registerOn_ok_iff
    ⟨disk.store.writeFile (sha256 call.source.data) call.source.data, disk.temps⟩ call.conn _ hsize
  rcases @put_cases sha256 names disk call with
    ⟨hpasses, hput⟩ | ⟨⟨hmeasured, hover⟩, message, hput⟩
  -- What is not measured is empty; it may exceed a negative limit, and nothing else.
  · have hzero : call.source.Unmeasured → call.source.data.length = 0 :=
      length_of_unmeasured call.source
    constructor
    · intro h
      have hsucceeds := h.succeeds
      rw [hput] at hsucceeds
      constructor
      · intro hempty
        rw [hzero hempty] at hsucceeds hregister
        have hsmall : ((0 : Nat) : Int) ≤ maxInteger := by decide
        exact hsucceeds.mp (hregister.mpr fun _ => hsmall)
      · intro hconn hle
        exact hregister.mp (hsucceeds.mpr hle) hconn
    · intro h
      have hle : (call.source.data.length : Int) ≤ call.options.maxBytes := by
        rcases hpasses with hempty | hle
        · rw [hzero hempty]
          exact h.compared hempty
        · exact hle
      have hok := hregister.mpr fun hconn => h.fits hconn hle
      constructor
      · rw [hput]
        exact iff_of_true hok hle
      · intro artifact hartifact
        rw [hput] at hartifact
        rw [StoreDisk.registerOn_ok hartifact]
        exact ⟨rfl, rfl⟩
      · intro _ _
        rw [hput, StoreDisk.registerOn_files]
        rfl
      · intro exc hexc
        obtain ⟨artifact, hartifact⟩ := hok
        rw [hput, hartifact] at hexc
        cases hexc
      · rw [hput, StoreDisk.registerOn_temps]
  · refine iff_of_true ?_ ⟨fun h => absurd h hmeasured, fun _ h => absurd h (not_le.mpr hover)⟩
    constructor
    · rw [hput]
      simpa using hover
    · rw [hput]
      intro artifact h
      cases h
    · rw [hput]
      intro artifact h
      cases h
    · rw [hput]
      exact fun _ _ => rfl
    · rw [hput]

end Call

/-! ## Collections -/

/-- The digests a collection that is no dry run purges, up to a row it cannot read. -/
def collectedRows (nowUtc : Datetime) : List ArtifactRow → List Digest
  | [] => []
  | row :: rest =>
      match row.retentionUntil with
      | none => collectedRows nowUtc rest
      | some retentionUntil =>
          match retentionUtc? retentionUntil with
          | none => []
          | some retUtc =>
              if retUtc.micros ≤ nowUtc.micros then row.digest :: collectedRows nowUtc rest
              else collectedRows nowUtc rest

def ArtifactStore.collected (store : ArtifactStore) (now : Datetime) : List Digest :=
  match now.assumeUtc.astimezoneUtc? with
  | none => []
  | some nowUtc => collectedRows nowUtc (collectableRows store.db)

/-- The bytes of what is collected go, and no others. By induction on the rows, of which only
those are purged whose time has come. -/
theorem collectRows_files (nowUtc : Datetime) (dryRun : Bool) (store : ArtifactStore)
    (purged : List Digest) (rows : List ArtifactRow) (digest : Digest) :
    (collectRows nowUtc dryRun store purged rows).2.files digest =
      if dryRun = false ∧ digest ∈ collectedRows nowUtc rows then none
      else store.files digest := by
  induction rows generalizing store purged with
  | nil => simp [collectRows, collectedRows]
  | cons row rest ih =>
      rw [collectRows, collectedRows]
      cases row.retentionUntil with
      | none => exact ih store purged
      | some retentionUntil =>
          cases hutc : retentionUtc? retentionUntil with
          | none => simp [hutc]
          | some retUtc =>
              simp only [hutc]
              by_cases hexpired : retUtc.micros ≤ nowUtc.micros
              · rw [if_pos hexpired, if_pos hexpired, ih]
                cases dryRun with
                | true => simp
                | false =>
                    by_cases heq : digest = row.digest
                    · simp [heq, purge, ArtifactStore.unlink]
                    · simp [heq, purge_files_of_ne store heq]
              · rw [if_neg hexpired, if_neg hexpired]
                exact ih store purged

theorem garbageCollect_files (store : ArtifactStore) (now : Datetime) (dryRun : Bool)
    (digest : Digest) : (garbageCollect store now dryRun).2.files digest =
      if dryRun = false ∧ digest ∈ store.collected now then none else store.files digest := by
  rw [garbageCollect, ArtifactStore.collected]
  cases now.assumeUtc.astimezoneUtc? with
  | none => simp
  | some nowUtc => exact collectRows_files nowUtc dryRun store [] _ digest

/-! ## Histories -/

inductive StoreEvent where
  | put (call : PutCall)
  | garbageCollect (now : Datetime) (dryRun : Bool)

abbrev Shelf := Digest → Option (List UInt8)

section History

variable (sha256 : List UInt8 → Digest) (names : TempNames)

def StoreDisk.step (disk : StoreDisk) : StoreEvent → StoreDisk
  | .put call => (disk.put sha256 names call).2
  | .garbageCollect now dryRun => (disk.garbageCollect now dryRun).2

/-- What an event should do to the bytes put under each digest and not collected since. -/
def StoreDisk.recall (disk : StoreDisk) (shelf : Shelf) : StoreEvent → Shelf
  | .put call =>
      if (call.source.data.length : Int) ≤ call.options.maxBytes then
        Function.update shelf (sha256 call.source.data) (some call.source.data)
      else shelf
  | .garbageCollect now dryRun => fun digest =>
      if dryRun = false ∧ digest ∈ disk.store.collected now then none else shelf digest

/-- The store together with what should be in it. -/
def recallStep (state : StoreDisk × Shelf) (event : StoreEvent) : StoreDisk × Shelf :=
  (state.1.step sha256 names event, state.1.recall sha256 state.2 event)

/-- An empty store at a root, next to a database. -/
def StoreDisk.empty (root : String) (db : Db) : StoreDisk where
  store :=
    { root := root
      files := fun _ => none
      db := db }
  temps := []

/-- A history of calls leaves a store that is addressed by content and remembers all of it. -/
structure Remembers (root : String) (db : Db) (events : List StoreEvent) : Prop where
  addressed : ∀ digest content,
    (run (StoreDisk.step sha256 names) (.empty root db) events).store.files digest =
      some content → sha256 content = digest
  puts : ∀ first call last, events = first ++ .put call :: last →
    PutSpec sha256 names (run (StoreDisk.step sha256 names) (.empty root db) first) call
  temps : (run (StoreDisk.step sha256 names) (.empty root db) events).temps = []
  reads : ∀ digest content,
    (run (StoreDisk.step sha256 names) (.empty root db) events).store.readBytes sha256
        digest.text = .ok content ↔
      (run (recallStep sha256 names) (.empty root db, fun _ => none) events).2 digest =
        some content
  altered : ∀ digest content,
    (run (recallStep sha256 names) (.empty root db, fun _ => none) events).2 digest =
        some content → ∀ path found, found ≠ .regular content →
      (∀ other, found = .regular other → sha256 other = sha256 content → other = content) →
        ∃ exc, openStored sha256 digest path found = .error exc

/-- Collections put no bytes under a digest. -/
def StoreEvent.Measured : StoreEvent → Prop
  | .put call => call.Measured
  | .garbageCollect _ _ => True

/-- The store holds what it should, under its digests, and nothing else is left over. -/
structure Holds (state : StoreDisk × Shelf) : Prop where
  files : state.1.store.files = state.2
  addressed : ∀ digest content, state.2 digest = some content → sha256 content = digest
  temps : state.1.temps = []

variable {sha256 names} {disk : StoreDisk} {shelf : Shelf}

/-- A put that goes through stores its bytes under their digest. One that fails stores nothing,
unless it was never measured. -/
theorem Holds.put (h : Holds sha256 (disk, shelf)) {call : PutCall} (hmeasured : call.Measured) :
    Holds sha256 (recallStep sha256 names (disk, shelf) (.put call)) := by
  have hspec : PutSpec sha256 names disk call := putSpec_iff.mpr hmeasured
  have hfiles : disk.store.files = shelf := h.files
  by_cases hlimit : (call.source.data.length : Int) ≤ call.options.maxBytes
  · obtain ⟨artifact, hartifact⟩ := hspec.succeeds.mpr hlimit
    have hrecall : disk.recall sha256 shelf (.put call) =
        Function.update shelf (sha256 call.source.data) (some call.source.data) := if_pos hlimit
    constructor
    · rw [recallStep, hrecall, ← hfiles]
      exact hspec.stores artifact hartifact
    · intro digest content hcontent
      change disk.recall sha256 shelf (.put call) digest = some content at hcontent
      rw [hrecall] at hcontent
      by_cases heq : digest = sha256 call.source.data
      · rw [heq, Function.update_self] at hcontent
        rw [heq, Option.some.inj hcontent]
      · rw [Function.update_of_ne heq] at hcontent
        exact h.addressed digest content hcontent
    · exact hspec.temps.trans h.temps
  · have hrecall : disk.recall sha256 shelf (.put call) = shelf := if_neg hlimit
    constructor
    · rw [recallStep, hrecall, ← hfiles]
      cases hput : (disk.put sha256 names call).1 with
      | ok artifact => exact absurd (hspec.succeeds.mp ⟨artifact, hput⟩) hlimit
      | error exc => exact hspec.fails exc hput
    · rw [recallStep, hrecall]
      exact h.addressed
    · exact hspec.temps.trans h.temps

/-- A collection removes the files of the digests it purges and nothing else. -/
theorem Holds.garbageCollect (h : Holds sha256 (disk, shelf)) (now : Datetime) (dryRun : Bool) :
    Holds sha256 (recallStep sha256 names (disk, shelf) (.garbageCollect now dryRun)) := by
  have hfiles : disk.store.files = shelf := h.files
  constructor
  · funext digest
    rw [recallStep, StoreDisk.recall, ← hfiles]
    exact garbageCollect_files disk.store now dryRun digest
  · intro digest content hcontent
    change (if dryRun = false ∧ digest ∈ disk.store.collected now then none else shelf digest) =
      some content at hcontent
    split at hcontent
    · cases hcontent
    · exact h.addressed digest content hcontent
  · exact h.temps

theorem Holds.step (h : Holds sha256 (disk, shelf)) {event : StoreEvent}
    (hmeasured : event.Measured) : Holds sha256 (recallStep sha256 names (disk, shelf) event) := by
  cases event with
  | put call => exact h.put hmeasured
  | garbageCollect now dryRun => exact h.garbageCollect now dryRun

theorem Holds.empty (root : String) (db : Db) :
    Holds sha256 (StoreDisk.empty root db, fun _ => none) where
  files := rfl
  addressed _ _ h := nomatch h
  temps := rfl

theorem run_recallStep (events : List StoreEvent) :
    (run (recallStep sha256 names) (disk, shelf) events).1 =
      run (StoreDisk.step sha256 names) disk events := by
  induction events generalizing disk shelf with
  | nil => rfl
  | cons event rest ih => exact ih

/-- Reading checks the digest, which holds of everything the store was given. -/
theorem Holds.readBytes_ok_iff (h : Holds sha256 (disk, shelf)) {digest : Digest}
    {content : List UInt8} : disk.store.readBytes sha256 digest.text = .ok content ↔
      shelf digest = some content := by
  have hfiles : disk.store.files digest = shelf digest := congrFun h.files digest
  rw [ArtifactStore.readBytes, ArtifactStore.openVerified, validateDigest_ok_iff.mpr rfl]
  simp only [bind, Except.bind, ArtifactStore.stored, hfiles]
  cases hshelf : shelf digest with
  | none => simp [openStored, raiseWith]
  | some held =>
      have hdigest := h.addressed digest held hshelf
      simp [openStored, hdigest]

/-- Reading raises on anything but the bytes, short of a collision. -/
theorem openStored_altered {digest : Digest} {content : List UInt8}
    (hdigest : sha256 content = digest) {path : String} {found : StoredFile}
    (haltered : found ≠ .regular content)
    (hfree : ∀ other, found = .regular other → sha256 other = sha256 content → other = content) :
    ∃ exc, openStored sha256 digest path found = .error exc := by
  cases found with
  | regular other =>
      have hne : sha256 other ≠ digest := by
        intro hsame
        apply haltered
        rw [hfree other rfl (hsame.trans hdigest.symm)]
      rw [openStored, if_pos hne]
      exact ⟨_, rfl⟩
  | _ => exact ⟨_, rfl⟩

/-- In every history whose puts are measured, the store is a map from digests to bytes: what was
put last and not collected since is read, and nothing else is there. -/
theorem remembers_of_measured {root : String} {db : Db} {events : List StoreEvent}
    (hmeasured : ∀ event ∈ events, event.Measured) :
    Remembers sha256 names root db events := by
  have hadmits : Admits (recallStep sha256 names) (fun _ event => StoreEvent.Measured event)
      (StoreDisk.empty root db, fun _ => none) events := by
    rw [admits_iff_forall]
    intro first event last hsplit
    exact hmeasured event (by simp [hsplit])
  -- The files are the contents that were put, and that is kept by every event.
  have hholds := hadmits.invariant (Holds sha256) (fun state event h => h.step) (.empty root db)
  have hrun := @run_recallStep sha256 names (.empty root db) (fun _ => none) events
  generalize hstate : run (recallStep sha256 names) (StoreDisk.empty root db, fun _ => none)
    events = state at hholds hrun
  obtain ⟨disk, shelf⟩ := state
  obtain rfl : disk = _ := hrun
  constructor
  · intro digest content hcontent
    rw [hholds.files] at hcontent
    exact hholds.addressed digest content hcontent
  · rintro first call last rfl
    exact putSpec_iff.mpr (hmeasured (.put call) (by simp))
  · exact hholds.temps
  · intro digest content
    rw [hstate]
    exact hholds.readBytes_ok_iff
  · intro digest content hcontent path found haltered hfree
    rw [hstate] at hcontent
    exact openStored_altered (hholds.addressed digest content hcontent) haltered hfree

end History

/-! ## Two short histories -/

def longName (names : List String) : String :=
  String.ofList (List.replicate ((names.map String.length).sum + 1) 'x')

theorem longName_fresh (names : List String) : longName names ∉ names := by
  intro hmem
  have hlength : (longName names).length ∈ names.map String.length := List.mem_map_of_mem hmem
  have hle := List.le_sum_of_mem hlength
  rw [longName, String.length_ofList, List.length_replicate] at hle
  omega

def longNames : TempNames where
  mkstemp := longName
  fresh := longName_fresh

def storedThenCollected : List StoreEvent :=
  [.put ⟨.bytes abc, expiringLog, epoch, true⟩, .garbageCollect epoch false]

/-- A log is put and collected at the epoch, when it expires. -/
theorem remembers_log :
    Remembers (fun _ => abcDigest) longNames "/store" emptyStore.db storedThenCollected := by
  apply remembers_of_measured
  intro event hevent
  rcases List.mem_pair.mp hevent with rfl | rfl
  · exact ⟨fun h => absurd h not_false, fun _ _ => by decide⟩
  · trivial

def emptyDigest : Digest :=
  hexdigest 0xe3b0c44298fc1c149afbf4c8996fb92427ae41e4649b934ca495991b7852b855

/-- An empty stream that may have fewer bytes than none. -/
def emptyStream : PutCall where
  source := .stream [] (by simp)
  options := { expiringLog with maxBytes := -1 }
  now := epoch
  conn := false

/-- The empty stream is stored, although its limit is below zero: nothing of it was ever
compared with the limit. -/
theorem emptyStream_not_remembered :
    ¬ Remembers (fun _ => emptyDigest) longNames "/store" emptyStore.db [.put emptyStream] := by
  intro h
  have hspec := h.puts [] emptyStream [] rfl
  have hlimit := (putSpec_iff.mp hspec).compared rfl
  exact absurd hlimit (by decide)

end VerifierCI
