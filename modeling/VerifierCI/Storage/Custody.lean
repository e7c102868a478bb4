import VerifierCI.Storage.Retention
import VerifierCI.Transition.Run

/-! # Who protects an artifact?

The row of a digest keeps the deadline of its first registration. A digest
therefore outlives what every caller was promised exactly as long as nobody
asks for more than the row already grants.
-/

namespace VerifierCI

open Python Relational Transition

/-! ## Histories of one store -/

inductive StoreCall where
  | putStream (stream : List (List UInt8)) (options : PutOptions) (now : Datetime)
  | putBytes (data : List UInt8) (options : PutOptions) (now : Datetime)
  | registerArtifact (artifact : Artifact)
  /-- `garbage_collect(now, dry_run=False)`. -/
  | garbageCollect (now : Datetime)

variable (sha256 : List UInt8 → Digest)

def ArtifactStore.call (store : ArtifactStore) : StoreCall → Option Artifact × ArtifactStore
  | .putStream stream options now =>
      let (result, store) := putStream sha256 store stream options now
      (result.toOption, store)
  | .putBytes data options now =>
      let (result, store) := putBytes sha256 store data options now
      (result.toOption, store)
  | .registerArtifact artifact =>
      match VerifierCI.registerArtifact store.db artifact with
      | .ok db => (some artifact, { store with db := db })
      | .error _ => (none, store)
  | .garbageCollect now => (none, (VerifierCI.garbageCollect store now false).2)

/-- Storing bytes either registers an artifact or leaves the table alone. -/
theorem putStream_cases (store : ArtifactStore) (stream : List (List UInt8)) (options : PutOptions)
    (now : Datetime) :
    (∃ exc, (putStream sha256 store stream options now).1 = .error exc ∧
        (putStream sha256 store stream options now).2.db = store.db) ∨
      ∃ artifact, (putStream sha256 store stream options now).1 = .ok artifact ∧
        registerArtifact store.db artifact =
          .ok (putStream sha256 store stream options now).2.db := by
  unfold putStream
  split
  next exc _ => exact Or.inl ⟨exc, rfl, rfl⟩
  next content totalBytes _ =>
    dsimp only
    split
    next exc _ => exact Or.inl ⟨exc, rfl, rfl⟩
    next db hregister => exact Or.inr ⟨_, rfl, hregister⟩

/-- A put fails without a trace in the database, or it registers the artifact it returns. -/
theorem putBytes_cases (store : ArtifactStore) (data : List UInt8) (options : PutOptions)
    (now : Datetime) :
    (∃ exc, (putBytes sha256 store data options now).1 = .error exc ∧
        (putBytes sha256 store data options now).2.db = store.db) ∨
      ∃ artifact, (putBytes sha256 store data options now).1 = .ok artifact ∧
        registerArtifact store.db artifact =
          .ok (putBytes sha256 store data options now).2.db := by
  unfold putBytes
  split
  · exact Or.inl ⟨_, rfl, rfl⟩
  · exact putStream_cases sha256 store _ options now

/-- What a call can do to the table: register one artifact, or keep every row. A put that is
refused and a collection delete no row. -/
theorem ArtifactStore.call_cases (store : ArtifactStore) (call : StoreCall) :
    ((store.call sha256 call).1 = none ∧ store.db.KeepsRows (store.call sha256 call).2.db) ∨
      ∃ artifact, (store.call sha256 call).1 = some artifact ∧
        VerifierCI.registerArtifact store.db artifact = .ok (store.call sha256 call).2.db := by
  cases call with
  | putStream stream options now =>
      rcases putStream_cases sha256 store stream options now with
        ⟨exc, hresult, hdb⟩ | ⟨artifact, hresult, hregister⟩
      · refine Or.inl ⟨by simp [call, hresult, Except.toOption], ?_⟩
        simp only [call, hdb]
        exact .refl _
      · exact Or.inr ⟨artifact, by simp [call, hresult, Except.toOption], hregister⟩
  | putBytes data options now =>
      rcases putBytes_cases sha256 store data options now with
        ⟨exc, hresult, hdb⟩ | ⟨artifact, hresult, hregister⟩
      · refine Or.inl ⟨by simp [call, hresult, Except.toOption], ?_⟩
        simp only [call, hdb]
        exact .refl _
      · exact Or.inr ⟨artifact, by simp [call, hresult, Except.toOption], hregister⟩
  | registerArtifact artifact =>
      cases hregister : VerifierCI.registerArtifact store.db artifact with
      | error exc =>
          refine Or.inl ⟨by simp [call, hregister], ?_⟩
          simp only [call, hregister]
          exact .refl _
      | ok db => exact Or.inr ⟨artifact, by simp [call, hregister], by simp [call, hregister]⟩
  | garbageCollect now =>
      refine Or.inl ⟨rfl, ?_⟩
      simp only [call, VerifierCI.garbageCollect]
      split
      · exact .refl _
      · exact collectRows_keepsRows _ false store [] _

/-- A store and every artifact registered in it so far. -/
structure Custody where
  store : ArtifactStore
  registered : List Artifact

namespace Custody

def start (store : ArtifactStore) : Custody where
  store := store
  registered := []

def call (custody : Custody) (call : StoreCall) : Custody where
  store := (custody.store.call sha256 call).2
  registered := (custody.store.call sha256 call).1.toList ++ custody.registered

/-- No collection loses a digest that some registration so far protects. -/
def Spares (custody : Custody) (call : StoreCall) : Prop :=
  ∀ now, call = .garbageCollect now → ∀ artifact ∈ custody.registered, artifact.ProtectedAt now →
    ¬ custody.store.Loses (custody.call sha256 call).store artifact.digest

/-- A digest that has a row is registered with no later deadline than the row's. -/
def Modest (custody : Custody) (call : StoreCall) : Prop :=
  ∀ artifact row, (custody.store.call sha256 call).1 = some artifact →
    custody.store.row? artifact.digest = some row → artifact.deadline ≤ row.deadline

/-- Every registered artifact has a row, which grants its deadline. -/
def Kept (custody : Custody) : Prop :=
  ∀ artifact ∈ custody.registered, ∃ row, custody.store.row? artifact.digest = some row ∧
    artifact.deadline ≤ row.deadline

theorem Kept.start (store : ArtifactStore) : (start store).Kept := by
  intro artifact hartifact
  cases hartifact

variable {sha256}

/-- A call that asks no more of a row than it grants keeps every registration so far. A later
registration does not change the deadline of a row, so it has to ask for no more than that. -/
theorem Kept.call {custody : Custody} (hkept : custody.Kept) {call : StoreCall}
    (hmodest : custody.Modest sha256 call) : (custody.call sha256 call).Kept := by
  have hold : custody.store.db.KeepsRows (custody.call sha256 call).store.db →
      ∀ artifact ∈ custody.registered, ∃ row,
        (custody.call sha256 call).store.row? artifact.digest = some row ∧
          artifact.deadline ≤ row.deadline := by
    intro hkeeps artifact hartifact
    obtain ⟨row, hrow, hdeadline⟩ := hkept artifact hartifact
    obtain ⟨available, hrow'⟩ := hkeeps artifact.digest row hrow
    exact ⟨_, hrow', hdeadline⟩
  rcases custody.store.call_cases sha256 call with ⟨hnone, hkeeps⟩ | ⟨artifact, hsome, hregister⟩
  · intro artifact hartifact
    apply hold hkeeps
    simpa [Custody.call, hnone] using hartifact
  · intro other hother
    have hmem : other = artifact ∨ other ∈ custody.registered := by
      simpa [Custody.call, hsome] using hother
    -- the artifact just registered: its row is new, or its deadline is no earlier
    rcases hmem with rfl | hmem
    · refine ⟨_, (registerArtifact_ok hregister).1, ?_⟩
      rw [ArtifactRow.setAvailable_deadline]
      cases hrow : custody.store.db.artifacts.find? other.digest.text with
      | none => exact le_refl other.deadline
      | some row => exact hmodest other row hsome hrow
    · exact hold (registerArtifact_keepsRows hregister) other hmem

/-- A collection obeys the rows, and the rows grant what was registered. -/
theorem Kept.spares {custody : Custody} (hkept : custody.Kept) (call : StoreCall) :
    custody.Spares sha256 call := by
  rintro now rfl artifact hartifact hprotected
  obtain ⟨row, hrow, hdeadline⟩ := hkept artifact hartifact
  have hlater := (Artifact.protectedAt_iff.mp hprotected).trans_le hdeadline
  exact garbageCollect_spares hrow hlater

/-- A registration that asks for more than the row grants can be broken at
once, by a collection at the row's own deadline. -/
theorem exists_loss {custody : Custody} (hreadable : custody.store.Readable) {call : StoreCall}
    (himmodest : ¬ custody.Modest sha256 call) :
    ∃ now, ¬ (custody.call sha256 call).Spares sha256 (.garbageCollect now) := by
  simp only [Modest, not_forall, not_le] at himmodest
  obtain ⟨artifact, row, hsome, hrow, hlt⟩ := himmodest
  obtain ⟨limit, hlimit, hpolicy⟩ := ArtifactRow.limit_of_deadline_ne_top hlt.ne_top
  have hdeadline := ArtifactRow.deadline_of_not_sealed hpolicy hlimit
  have hregister : registerArtifact custody.store.db artifact =
      .ok (custody.call sha256 call).store.db := by
    rcases custody.store.call_cases sha256 call with ⟨hnone, _⟩ | ⟨other, hother, hregister⟩
    · exact absurd (hnone.symm.trans hsome) (by simp)
    · obtain rfl := Option.some.inj (hother.symm.trans hsome)
      exact hregister
  have hrow' : (custody.call sha256 call).store.row? artifact.digest =
      some (row.setAvailable true) := by
    have hself := (registerArtifact_ok hregister).1
    rwa [show custody.store.db.artifacts.find? artifact.digest.text = some row from hrow] at hself
  obtain ⟨hmem, hdigest⟩ := ArtifactStore.mem_of_row? hrow
  refine ⟨limit, fun hspares => ?_⟩
  apply hspares limit rfl artifact
  · simp [Custody.call, hsome]
  · rw [Artifact.protectedAt_iff, ← hdeadline]
    exact hlt
  · refine Or.inr ⟨by rw [ArtifactStore.available, hrow']; rfl, ?_⟩
    rw [← hdigest]
    exact garbageCollect_reaches (registerArtifact_readable hregister hrow hreadable)
      (ArtifactStore.mem_of_row? hrow').1 rfl hpolicy hlimit
      (assumeUtc_isSome (hreadable row hmem limit hlimit))

/-- In a history in which nobody asks for more than an existing row grants, no
collection loses what a registration protects; and asking for more opens the
way to a loss. -/
theorem retention_protection (sha256 : List UInt8 → Digest) :
    (∀ (store : ArtifactStore) (calls : List StoreCall),
      Admits (call sha256) (Modest sha256) (start store) calls →
        Admits (call sha256) (Spares sha256) (start store) calls) ∧
      ∀ (custody : Custody) (call : StoreCall), custody.store.Readable →
        ¬ custody.Modest sha256 call →
        ∃ now, ¬ (custody.call sha256 call).Spares sha256 (.garbageCollect now) := by
  constructor
  · intro store calls hmodest
    exact hmodest.of_invariant Kept (fun _ _ hkept hstep => hkept.call hstep)
      (fun _ call hkept _ => hkept.spares call) (Kept.start store)
  · intro custody call hreadable himmodest
    exact exists_loss hreadable himmodest

/-! ### Two owners of one digest -/

def emptyStore : ArtifactStore where
  root := "/store"
  files := fun _ => none
  db :=
    { artifacts := .empty
      auditManifests := .empty
      auditRuns := .empty
      jobs := .empty
      evaluationAttempts := .empty }

/-- The SHA-256 digest of the bytes `abc`. -/
def abcDigest : Digest where
  text := "ba7816bf8f01cfea414140de5dae2223b00361a396177a9cb410ff61f20015ad"
  length_eq := String.length_ofList
  hex := hex_ofList rfl

def abc : List UInt8 := [97, 98, 99]

theorem epoch_mem : minMicros ≤ 0 ∧ 0 ≤ maxMicros := by decide

def epoch : Datetime where
  micros := 0
  utcoffset := some 0
  micros_mem := epoch_mem
  utcoffset_mem := Datetime.utc_mem

/-- A log that may be deleted from the epoch on. -/
def expiringLog : PutOptions where
  maxBytes := 1000
  kind := "stdout"
  accessPolicy := .public
  retentionUntil := some epoch

def sealedEvidence : PutOptions where
  maxBytes := 1000
  kind := "evidence"
  accessPolicy := .sealed

/-- The same bytes are stored as a log and then as sealed evidence. -/
def logThenEvidence : List StoreCall :=
  [.putBytes abc expiringLog epoch, .putBytes abc sealedEvidence epoch, .garbageCollect epoch]

def evidenceThenLog : List StoreCall :=
  [.putBytes abc sealedEvidence epoch, .putBytes abc expiringLog epoch, .garbageCollect epoch]

theorem modest_evidenceThenLog :
    Admits (call fun _ => abcDigest) (Modest fun _ => abcDigest) (start emptyStore)
      evidenceThenLog := by
  refine ⟨?_, ?_, ?_, trivial⟩
  · rintro artifact row _ hrow
    cases hrow
  · rintro artifact row hsome hrow
    obtain rfl := Option.some.inj hsome
    obtain rfl := Option.some.inj hrow
    exact le_top
  · rintro artifact row hsome _
    cases hsome

theorem readable_log :
    (run (call fun _ => abcDigest) (start emptyStore)
      (logThenEvidence.take 1)).store.Readable := by
  intro row hrow limit hlimit
  obtain rfl := List.mem_singleton.mp hrow
  obtain rfl := Option.some.inj hlimit
  rfl

/-- The evidence is sealed first, and the log that has the same bytes asks for less. -/
theorem retention_protection_abc :
    Admits (call fun _ => abcDigest) (Spares fun _ => abcDigest) (start emptyStore)
        evidenceThenLog ∧
      ∃ now, ¬ (run (call fun _ => abcDigest) (start emptyStore)
        (logThenEvidence.take 2)).Spares (fun _ => abcDigest) (.garbageCollect now) := by
  refine ⟨(retention_protection fun _ => abcDigest).1 emptyStore evidenceThenLog
    modest_evidenceThenLog, ?_⟩
  apply (retention_protection fun _ => abcDigest).2 _ (.putBytes abc sealedEvidence epoch)
    readable_log
  intro hmodest
  exact absurd (hmodest _ _ rfl rfl) (by decide)

/-- The log came first, and its row lets the sealed evidence be collected. -/
theorem sealed_evidence_collected :
    ¬ Admits (call fun _ => abcDigest) (Spares fun _ => abcDigest) (start emptyStore)
      logThenEvidence := by
  rintro ⟨_, _, hspares, _⟩
  refine hspares epoch rfl _ List.mem_cons_self (Or.inl rfl) (Or.inr ⟨?_, ?_⟩)
  · rfl
  · rfl

end Custody

end VerifierCI
