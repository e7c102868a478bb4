import VerifierCI.Python.IsoFormat
import VerifierCI.Storage.Evidence

/-! # Evidence is kept

Whatever statements are run on the three tables, an attempt that has become
authoritative stays as it is and stays the only one of its job, and what it
refers to stays stored. Sealed artifacts keep all they say about their bytes.
-/

namespace VerifierCI

open Python Relational Transition

/-! ## What the triggers protect -/

theorem attemptGuards_protects :
    attemptGuards.Protects fun row => row.disposition = .authoritative := by
  intro row hrow
  simp [attemptGuards, hrow]

theorem attemptGuards_carries (values : StoredAttempt → StoredAttempt) :
    attemptGuards.Carries (fun row => row.disposition = .authoritative) (fun row new => new = row)
      values where
  refl _ := rfl
  update row hrow hpasses := by
    simp [attemptGuards, hrow] at hpasses

theorem attemptGuards_clashes_symm (a b : StoredAttempt) :
    attemptGuards.clashes a b = attemptGuards.clashes b a := by
  have hkey : sameKey a.attemptId b.attemptId = sameKey b.attemptId a.attemptId := by
    rw [Bool.eq_iff_iff]
    simp only [sameKey, Bool.and_eq_true, decide_eq_true_eq]
    constructor
    · rintro ⟨hsome, heq⟩
      exact ⟨heq ▸ hsome, heq.symm⟩
    · rintro ⟨hsome, heq⟩
      exact ⟨heq ▸ hsome, heq.symm⟩
  simp only [attemptGuards]
  rw [hkey, Bool.eq_iff_iff]
  simp only [Bool.or_eq_true, Bool.and_eq_true, decide_eq_true_eq]
  constructor
  · rintro (hkeys | ⟨⟨hjob, ha⟩, hb⟩)
    · exact Or.inl hkeys
    · exact Or.inr ⟨⟨hjob.symm, hb⟩, ha⟩
  · rintro (hkeys | ⟨⟨hjob, ha⟩, hb⟩)
    · exact Or.inl hkeys
    · exact Or.inr ⟨⟨hjob.symm, hb⟩, ha⟩

theorem artifactGuards_protects (columns : List ArtifactColumn) :
    (artifactGuards columns).Protects fun row => row.accessPolicy = .sealed := by
  intro row hrow
  simp [artifactGuards, hrow]

/-- All but the availability is as it was. -/
def StoredArtifact.SameCore (row new : StoredArtifact) : Prop :=
  new = { row with available := new.available }

theorem StoredArtifact.set_sameCore {columns : List ArtifactColumn}
    (hcore : columns.any ArtifactColumn.isCore = false) (row values : StoredArtifact) :
    row.SameCore (row.set columns values) := by
  have hnot : ∀ column : ArtifactColumn, column.isCore = true → column ∉ columns := by
    intro column hcolumn hmem
    have hany := List.any_eq_true.mpr ⟨column, hmem, hcolumn⟩
    rw [hcore] at hany
    cases hany
  unfold SameCore set
  rw [if_neg (hnot .digest rfl), if_neg (hnot .kind rfl), if_neg (hnot .sizeBytes rfl),
    if_neg (hnot .storageUri rfl), if_neg (hnot .mediaType rfl), if_neg (hnot .accessPolicy rfl),
    if_neg (hnot .retentionUntil rfl), if_neg (hnot .createdAt rfl)]

theorem StoredArtifact.SameCore.trans {a b c : StoredArtifact} (first : a.SameCore b)
    (second : b.SameCore c) : a.SameCore c := by
  unfold SameCore at first second ⊢
  rw [second, first]

/-- The trigger on the core columns lets only the availability of an artifact change. -/
theorem artifactGuards_carries (columns : List ArtifactColumn)
    (values : StoredArtifact → StoredArtifact) :
    (artifactGuards columns).Carries (fun row => row.accessPolicy = .sealed)
      StoredArtifact.SameCore fun row => row.set columns (values row) where
  refl _ := rfl
  update row hrow hpasses := by
    have hcore : columns.any ArtifactColumn.isCore = false := by
      cases hany : columns.any ArtifactColumn.isCore with
      | false => rfl
      | true =>
          simp [artifactGuards, hany] at hpasses
    have hsame := row.set_sameCore hcore (values row)
    refine ⟨?_, hsame⟩
    rw [hsame]
    exact hrow

/-! ## One statement -/

/-- Keys are unique and no foreign key is dangling. -/
structure EvidenceDb.Sound (db : EvidenceDb) : Prop where
  unique : attemptGuards.Unique db.attempts
  resolves : db.resolves = true

/-- What no statement takes away. -/
structure EvidenceDb.Keeps (db db' : EvidenceDb) : Prop where
  attempts : ∀ row ∈ db.attempts, row.disposition = .authoritative → row ∈ db'.attempts
  artifacts : Guards.Outlives (fun row => row.accessPolicy = .sealed) StoredArtifact.SameCore
    db.artifacts db'.artifacts

section Statement

variable {db db' db'' : EvidenceDb} {statement : EvidenceStatement}

theorem EvidenceDb.Keeps.of_eq (hattempts : db'.attempts = db.attempts)
    (hartifacts : db'.artifacts = db.artifacts) : db.Keeps db' where
  attempts _ hrow _ := hattempts ▸ hrow
  artifacts := Guards.Outlives.of_mem (fun _ => rfl) fun _ hrow _ => hartifacts ▸ hrow

theorem EvidenceDb.Keeps.trans (first : db.Keeps db') (second : db'.Keeps db'') :
    db.Keeps db'' where
  attempts row hrow hauth := second.attempts row (first.attempts row hrow hauth) hauth
  artifacts := first.artifacts.trans second.artifacts fun _ _ _ => StoredArtifact.SameCore.trans

theorem checked_ok (h : db.checked = .ok db') : db' = db ∧ db.resolves = true := by
  unfold EvidenceDb.checked at h
  split at h
  next hresolves => exact ⟨(Except.ok.inj h).symm, hresolves⟩
  next => cases h

/-- A statement on the attempts keeps the authoritative ones and their keys. -/
theorem EvidenceDb.Keeps.of_attempts {stored : List StoredAttempt}
    (hkept : ∀ row ∈ db.attempts, row.disposition = .authoritative → row ∈ stored) :
    db.Keeps { db with attempts := stored } where
  attempts := hkept
  artifacts := Guards.Outlives.of_mem (fun _ => rfl) fun _ hrow _ => hrow

/-- Statement by statement: what is guarded by a trigger, a constraint or a foreign key is there
afterwards. -/
theorem execute_keeps (h : db.execute statement = .ok db') : db.Keeps db' := by
  -- One case per statement: those on jobs and parents touch neither evidence table.
  cases statement with
  | insertArtifacts onConflict rows =>
      obtain ⟨stored, hstored, hchecked⟩ := bind_eq_ok.mp h
      obtain ⟨rfl, _⟩ := checked_ok hchecked
      refine ⟨fun _ hrow _ => hrow, Guards.Outlives.of_mem (fun _ => rfl) ?_⟩
      exact fun _ => (artifactGuards_protects []).insert_mem hstored
  | updateArtifacts onConflict columns values selects =>
      obtain ⟨stored, hstored, hchecked⟩ := bind_eq_ok.mp h
      obtain ⟨rfl, _⟩ := checked_ok hchecked
      exact ⟨fun _ hrow _ => hrow,
        (artifactGuards_protects columns).updateOr_ok
        (artifactGuards_carries columns values) hstored⟩
  | deleteArtifacts selects =>
      obtain ⟨stored, hstored, hchecked⟩ := bind_eq_ok.mp h
      obtain ⟨rfl, _⟩ := checked_ok hchecked
      refine ⟨fun _ hrow _ => hrow, Guards.Outlives.of_mem (fun _ => rfl) ?_⟩
      exact fun _ => (artifactGuards_protects []).delete_mem hstored
  | insertJobs onConflict rows =>
      obtain ⟨stored, _, hchecked⟩ := bind_eq_ok.mp h
      obtain ⟨rfl, _⟩ := checked_ok hchecked
      exact .of_eq rfl rfl
  | updateJobs onConflict values selects =>
      obtain ⟨stored, _, hchecked⟩ := bind_eq_ok.mp h
      obtain ⟨rfl, _⟩ := checked_ok hchecked
      exact .of_eq rfl rfl
  | deleteJobs selects =>
      obtain ⟨stored, _, hchecked⟩ := bind_eq_ok.mp h
      obtain ⟨rfl, _⟩ := checked_ok hchecked
      exact .of_eq rfl rfl
  | insertAttempts onConflict rows =>
      obtain ⟨stored, hstored, hchecked⟩ := bind_eq_ok.mp h
      obtain ⟨rfl, _⟩ := checked_ok hchecked
      exact .of_attempts fun _ => attemptGuards_protects.insert_mem hstored
  | updateAttempts onConflict values selects =>
      obtain ⟨stored, hstored, hchecked⟩ := bind_eq_ok.mp h
      obtain ⟨rfl, _⟩ := checked_ok hchecked
      apply EvidenceDb.Keeps.of_attempts
      intro row hrow hauth
      obtain ⟨row', hrow', _, rfl⟩ :=
        attemptGuards_protects.updateOr_ok (attemptGuards_carries values) hstored row hrow hauth
      exact hrow'
  | deleteAttempts selects =>
      obtain ⟨stored, hstored, hchecked⟩ := bind_eq_ok.mp h
      obtain ⟨rfl, _⟩ := checked_ok hchecked
      exact .of_attempts fun _ => attemptGuards_protects.delete_mem hstored
  | elsewhere parents =>
      obtain ⟨rfl, _⟩ := checked_ok h
      exact .of_eq rfl rfl

/-- Foreign keys are checked when the statement ends, so none is left dangling. -/
theorem EvidenceDb.Sound.execute (hdb : db.Sound) (h : db.execute statement = .ok db') :
    db'.Sound := by
  cases statement with
  | insertAttempts onConflict rows =>
      obtain ⟨stored, hstored, hchecked⟩ := bind_eq_ok.mp h
      obtain ⟨rfl, hresolves⟩ := checked_ok hchecked
      exact ⟨hdb.unique.insert_ok hstored, hresolves⟩
  | updateAttempts onConflict values selects =>
      obtain ⟨stored, hstored, hchecked⟩ := bind_eq_ok.mp h
      obtain ⟨rfl, hresolves⟩ := checked_ok hchecked
      exact ⟨hdb.unique.updateOr_ok attemptGuards_clashes_symm hstored, hresolves⟩
  | deleteAttempts selects =>
      obtain ⟨stored, hstored, hchecked⟩ := bind_eq_ok.mp h
      obtain ⟨rfl, hresolves⟩ := checked_ok hchecked
      exact ⟨hdb.unique.delete_ok hstored, hresolves⟩
  | elsewhere parents =>
      obtain ⟨rfl, hresolves⟩ := checked_ok h
      exact ⟨hdb.unique, hresolves⟩
  | _ =>
      obtain ⟨stored, _, hchecked⟩ := bind_eq_ok.mp h
      obtain ⟨rfl, hresolves⟩ := checked_ok hchecked
      exact ⟨hdb.unique, hresolves⟩

end Statement

/-! ## Every run of statements -/

section Run

variable {db : EvidenceDb}

theorem EvidenceDb.Sound.call (h : db.Sound) (statement : EvidenceStatement) :
    (db.call statement).Sound := by
  unfold EvidenceDb.call
  split
  next hok => exact h.execute hok
  next => exact h

theorem call_keeps (db : EvidenceDb) (statement : EvidenceStatement) :
    db.Keeps (db.call statement) := by
  unfold EvidenceDb.call
  split
  next hok => exact execute_keeps hok
  next => exact .of_eq rfl rfl

theorem run_keeps (db : EvidenceDb) (statements : List EvidenceStatement) :
    db.Keeps (run EvidenceDb.call db statements) := by
  induction statements generalizing db with
  | nil => exact .of_eq rfl rfl
  | cons statement rest ih => exact (call_keeps db statement).trans (ih (db.call statement))

theorem EvidenceDb.Sound.empty (parents : JobParents) : (EvidenceDb.empty parents).Sound where
  unique := List.Pairwise.nil
  resolves := rfl

/-- What is kept of the evidence of an earlier state in a later one. -/
structure InCustody (db db' : EvidenceDb) : Prop where
  attempts : ∀ row ∈ db.attempts, row.disposition = .authoritative → row ∈ db'.attempts
  /-- The job has no second authority. -/
  single : ∀ row ∈ db.attempts, row.disposition = .authoritative → ∀ other ∈ db'.attempts,
    other.disposition = .authoritative → other.jobId = row.jobId → other = row
  jobs : ∀ row ∈ db.attempts, row.disposition = .authoritative → db'.hasJob row.jobId = true
  digests : ∀ row ∈ db.attempts, row.disposition = .authoritative → ∀ digest,
    row.stdoutHash = some digest ∨ row.stderrHash = some digest ∨ row.reportDigest = some digest →
      db'.hasArtifact digest = true
  artifacts : ∀ row ∈ db.artifacts, row.accessPolicy = .sealed →
    ∃ row' ∈ db'.artifacts, row' = { row with available := row'.available }

theorem EvidenceDb.Sound.resolves_attempt (h : db.Sound) {row : StoredAttempt}
    (hrow : row ∈ db.attempts) : row.resolves db = true := by
  have hresolves := h.resolves
  rw [EvidenceDb.resolves, Bool.and_eq_true] at hresolves
  exact List.all_eq_true.mp hresolves.2 row hrow

/-- Two authoritative attempts of one job clash. -/
theorem EvidenceDb.Sound.single (h : db.Sound) {row other : StoredAttempt}
    (hrow : row ∈ db.attempts) (hauth : row.disposition = .authoritative)
    (hother : other ∈ db.attempts) (hotherAuth : other.disposition = .authoritative)
    (hjob : other.jobId = row.jobId) : other = row := by
  have hclash : attemptGuards.clashes other row = true := by
    simp [attemptGuards, hjob, hauth, hotherAuth]
  exact h.unique.eq_of_clashes hother hrow hclash
    ((attemptGuards_clashes_symm row other).trans hclash)

/-- Whatever statements are run, what has once been evidence stays in custody: no code of the
queue has to be trusted for it, only the tables. -/
theorem evidence_in_custody (parents : JobParents) (before after : List EvidenceStatement) :
    InCustody (run EvidenceDb.call (.empty parents) before)
      (run EvidenceDb.call (.empty parents) (before ++ after)) := by
  rw [run_append]
  generalize hdb : run EvidenceDb.call (EvidenceDb.empty parents) before = db
  have hsound : db.Sound := by
    rw [← hdb]
    exact run_invariant EvidenceDb.Sound (fun _ statement h => h.call statement) (.empty parents) _
  -- Soundness holds after the later statements, too, and speaks of what was kept.
  have hlater : (run EvidenceDb.call db after).Sound :=
    run_invariant EvidenceDb.Sound (fun _ statement h => h.call statement) hsound after
  have hkeeps := run_keeps db after
  have hresolves : ∀ row ∈ db.attempts, row.disposition = .authoritative →
      row.resolves (run EvidenceDb.call db after) = true :=
    fun row hrow hauth => hlater.resolves_attempt (hkeeps.attempts row hrow hauth)
  constructor
  · exact hkeeps.attempts
  · intro row hrow hauth other hother hotherAuth hjob
    exact hlater.single (hkeeps.attempts row hrow hauth) hauth hother hotherAuth hjob
  · intro row hrow hauth
    have h := hresolves row hrow hauth
    simp only [StoredAttempt.resolves, Bool.and_eq_true] at h
    exact h.1.1.1
  · intro row hrow hauth digest hdigest
    have h := hresolves row hrow hauth
    simp only [StoredAttempt.resolves, Bool.and_eq_true] at h
    obtain ⟨⟨⟨_, hstdout⟩, hstderr⟩, hreport⟩ := h
    rcases hdigest with heq | heq | heq
    · rwa [heq] at hstdout
    · rwa [heq] at hstderr
    · rwa [heq] at hreport
  · intro row hrow hsealed
    obtain ⟨row', hrow', _, hsame⟩ := hkeeps.artifacts row hrow hsealed
    exact ⟨row', hrow', hsame⟩

end Run

/-! ## The statements of the queue -/

def ArtifactRow.stored (row : ArtifactRow) : StoredArtifact where
  digest := some row.digest.text
  kind := row.kind
  sizeBytes := row.sizeBytes
  storageUri := row.storageUri
  mediaType := row.mediaType
  accessPolicy := row.accessPolicy
  retentionUntil := row.retentionUntil.map fun limit => String.ofList limit.isoformat
  available := row.available
  createdAt := String.ofList row.createdAt.isoformat

def Job.stored (row : Job) : StoredJob where
  jobId := some row.jobId
  runId := row.runId
  taskKey := row.taskKey
  caseId := row.caseId
  verifierKey := row.verifierKey
  repetition := row.repetition
  state := row.state
  fence := row.fence
  attemptId := row.attemptId
  leaseToken := row.leaseToken
  workerId := row.workerId
  leaseExpiresMs := row.leaseExpiresMs
  attemptsStarted := row.attemptsStarted
  selectedAttemptId := row.selectedAttemptId
  terminalReason := row.terminalReason

def AttemptRow.stored (row : AttemptRow) : StoredAttempt where
  attemptId := some row.attemptId
  jobId := row.jobId
  fence := row.fence
  outcome := row.outcome
  evaluationValidity := row.evaluationValidity
  errorCode := row.errorCode
  disposition := row.disposition
  startedAt := String.ofList row.startedAt.isoformat
  finishedAt := row.finishedAt.map fun finishedAt => String.ofList finishedAt.isoformat
  exitCode := row.exitCode
  stdoutHash := row.stdoutHash
  stderrHash := row.stderrHash
  reportDigest := row.reportDigest
  testCollection := row.testCollection
  testsPassed := row.testsPassed
  testsFailed := row.testsFailed
  resources := row.resources
  artifactDigests := row.artifactDigests
  captureTruncated := row.captureTruncated

/-- The evidence tables of the queue's database. -/
def Db.evidence (db : Db) (parents : JobParents) : EvidenceDb where
  artifacts := db.artifacts.rows.map ArtifactRow.stored
  jobs := db.jobs.rows.map Job.stored
  attempts := db.evaluationAttempts.rows.map AttemptRow.stored
  parents := parents

section Queue

variable {db db' : Db} {parents : JobParents}

theorem AttemptRow.stored_statusCheck {row : AttemptRow} :
    row.stored.statusCheck = true ↔ row.StatusCheck := by
  unfold StoredAttempt.statusCheck AttemptRow.StatusCheck
  rw [show row.stored.evaluationValidity = row.evaluationValidity from rfl]
  cases row.evaluationValidity with
  | pending =>
      simp only [Bool.and_eq_true, decide_eq_true_eq]
      simp [AttemptRow.stored]
  | valid =>
      simp only [Bool.or_eq_true, decide_eq_true_eq]
      simp [AttemptRow.stored]
  | invalid =>
      simp only [Bool.or_eq_true, Bool.and_eq_true, decide_eq_true_eq]
      simp [AttemptRow.stored]

theorem AttemptRow.stored_check {row : AttemptRow} : row.stored.check = true ↔ row.Check := by
  have hcount : ∀ count : Option Int, count.all (fun n => 0 ≤ n) = true ↔ ∀ n ∈ count, 0 ≤ n := by
    intro count
    cases count <;> simp
  simp only [StoredAttempt.check, Bool.and_eq_true, decide_eq_true_eq, hcount, stored_statusCheck]
  constructor
  · rintro ⟨⟨⟨⟨⟨⟨hfence, hpassed⟩, hfailed⟩, hcollection⟩, hresources⟩, hdigests⟩, hstatus⟩
    exact ⟨hfence, hpassed, hfailed, hcollection, hresources, hdigests, hstatus⟩
  · intro h
    exact ⟨⟨⟨⟨⟨⟨h.fence, h.testsPassed⟩, h.testsFailed⟩, h.testCollection⟩, h.resources⟩,
      h.artifactDigests⟩, h.status⟩

/-- The two rows have the same key, or are both authoritative for the same job. -/
theorem AttemptRow.stored_clashes {row other : AttemptRow} :
    attemptGuards.clashes row.stored other.stored = true ↔ row.attemptId = other.attemptId ∨
      row.jobId = other.jobId ∧ row.disposition = .authoritative ∧
        other.disposition = .authoritative := by
  simp [attemptGuards, sameKey, AttemptRow.stored, and_assoc]

/-- A row clashes with none whose key and authority are others. -/
theorem stored_free {new : AttemptRow} {others : List AttemptRow}
    (hkeys : ∀ other ∈ others, other.attemptId ≠ new.attemptId)
    (hauthority : new.disposition = .authoritative → ∀ other ∈ others,
      other.disposition = .authoritative → other.jobId ≠ new.jobId) :
    (others.map AttemptRow.stored).any (attemptGuards.clashes new.stored) = false := by
  rw [List.any_eq_false]
  intro stored hstored hclash
  obtain ⟨other, hother, rfl⟩ := List.mem_map.mp hstored
  rcases AttemptRow.stored_clashes.mp hclash with hkey | ⟨hjob, hnew, hold⟩
  · exact hkeys other hother hkey.symm
  · exact hauthority hnew other hother hold hjob.symm

theorem ne_of_nodup_middle {visited rest : List AttemptRow} {row other : AttemptRow}
    (h : ((visited ++ row :: rest).map AttemptRow.attemptId).Nodup)
    (hother : other ∈ visited ++ rest) : other.attemptId ≠ row.attemptId := by
  rw [List.map_append, List.map_cons, List.nodup_middle, ← List.map_append] at h
  intro heq
  exact (List.nodup_cons.mp h).1 (heq ▸ List.mem_map_of_mem hother)

theorem authority_middle {visited rest : List AttemptRow} {row other : AttemptRow}
    (h : (((visited ++ row :: rest).filter fun row => row.disposition = .authoritative).map
      AttemptRow.jobId).Nodup) (hrow : row.disposition = .authoritative)
    (hother : other ∈ visited ++ rest) (hotherAuth : other.disposition = .authoritative) :
    other.jobId ≠ row.jobId := by
  have hcons : (row :: rest).filter (fun row => row.disposition = .authoritative) =
      row :: rest.filter fun row => row.disposition = .authoritative :=
    List.filter_cons_of_pos (by simpa using hrow)
  rw [List.filter_append, hcons, List.map_append, List.map_cons, List.nodup_middle,
    ← List.map_append, ← List.filter_append] at h
  intro heq
  apply (List.nodup_cons.mp h).1
  rw [← heq]
  exact List.mem_map_of_mem (List.mem_filter.mpr ⟨hother, decide_eq_true hotherAuth⟩)

/-- The row after an update of the rows that `p` selects. -/
def AttemptRow.updated (p : AttemptRow → Bool) (f : AttemptRow → AttemptRow) (row : AttemptRow) :
    AttemptRow :=
  if p row then f row else row

/-- On the queue's own rows the guarded UPDATE of the schema is the update of the
queue's model. -/
theorem updateFrom_stored {p : AttemptRow → Bool} {f : AttemptRow → AttemptRow}
    {values : StoredAttempt → StoredAttempt} {selects : StoredAttempt → Bool}
    (hvalues : ∀ row : AttemptRow, values row.stored = (f row).stored)
    (hselects : ∀ row : AttemptRow, selects row.stored = p row)
    (hkey : ∀ row, (f row).attemptId = row.attemptId) {visited rest : List AttemptRow}
    (hrows : ∀ row ∈ rest, p row = true → row.disposition ≠ .authoritative ∧ (f row).Check)
    (hkeys : ((visited ++ rest).map AttemptRow.attemptId).Nodup)
    (hauthority : (((visited ++ rest.map (AttemptRow.updated p f)).filter
      fun row => row.disposition = .authoritative).map AttemptRow.jobId).Nodup) :
    attemptGuards.updateFrom selects values (visited.map AttemptRow.stored)
        (rest.map AttemptRow.stored) =
      .ok ((visited ++ rest.map (AttemptRow.updated p f)).map AttemptRow.stored) := by
  induction rest generalizing visited with
  | nil => simp [Guards.updateFrom]
  | cons row rest ih =>
      have hrest : ∀ row ∈ rest, p row = true → row.disposition ≠ .authoritative ∧ (f row).Check :=
        fun other hother => hrows other (List.mem_cons_of_mem row hother)
      rw [List.map_cons, Guards.updateFrom, hselects]
      by_cases hp : p row = true
      · obtain ⟨hopen, hcheck⟩ := hrows row List.mem_cons_self hp
        have hupdated : AttemptRow.updated p f row = f row := if_pos hp
        rw [List.map_cons, hupdated] at hauthority ⊢
        -- The three checks of the guards, as the columns of the row state them.
        have hpasses : attemptGuards.beforeUpdate row.stored (f row).stored = none := if_neg hopen
        have hvalid : attemptGuards.valid (f row).stored = true :=
          AttemptRow.stored_check.mpr hcheck
        have hfree : ((visited.map AttemptRow.stored ++ rest.map AttemptRow.stored).any
            (attemptGuards.clashes (f row).stored)) = false := by
          rw [← List.map_append]
          apply stored_free
          · intro other hother
            rw [hkey row]
            exact ne_of_nodup_middle hkeys hother
          · -- an authoritative row still to come is not selected, so it is in the outcome, too
            intro hauth other hother hotherAuth
            rcases List.mem_append.mp hother with hvisited | hlater
            · exact authority_middle hauthority hauth (List.mem_append_left _ hvisited) hotherAuth
            · have hkept : AttemptRow.updated p f other = other :=
                if_neg fun hselected => (hrest other hlater hselected).1 hotherAuth
              apply authority_middle hauthority hauth (List.mem_append_right _ ?_) hotherAuth
              rw [← hkept]
              exact List.mem_map_of_mem hlater
        rw [if_pos hp, hvalues, hpasses]
        simp only [hvalid, hfree, Bool.not_true, Bool.false_eq_true, if_false]
        have hnext := @ih (visited ++ [f row]) hrest (by simpa [hkey] using hkeys)
          (by simpa using hauthority)
        simpa using hnext
      · have hupdated : AttemptRow.updated p f row = row := if_neg hp
        rw [List.map_cons, hupdated] at hauthority ⊢
        rw [if_neg hp]
        have hnext :=
          @ih (visited ++ [row]) hrest (by simpa using hkeys) (by simpa using hauthority)
        simpa using hnext

/-- An update of attempts by the queue is the statement it stands for. -/
theorem updateAttempts_executes {p : AttemptRow → Bool} {f : AttemptRow → AttemptRow}
    {hkey : ∀ row, (f row).attemptId = row.attemptId} (h : db.updateAttempts p f hkey = .ok db')
    {values : StoredAttempt → StoredAttempt} {selects : StoredAttempt → Bool}
    (hvalues : ∀ row : AttemptRow, values row.stored = (f row).stored)
    (hselects : ∀ row : AttemptRow, selects row.stored = p row)
    (hresolves : (db'.evidence parents).resolves = true) :
    (db.evidence parents).execute (.updateAttempts .abort values selects) =
      .ok (db'.evidence parents) := by
  simp only [Db.updateAttempts] at h
  split at h
  next hallowed =>
    obtain ⟨hrows, hauthority⟩ := hallowed
    obtain rfl := Except.ok.inj h
    have hstored := @updateFrom_stored p f values selects hvalues hselects hkey []
      db.evaluationAttempts.rows ?_ db.evaluationAttempts.nodup hauthority
    · have hchecked : ({ db with evaluationAttempts := db.evaluationAttempts.update p f hkey
          }.evidence parents).checked = .ok _ := if_pos hresolves
      refine bind_eq_ok.mpr ⟨_, hstored, hchecked⟩
    · intro row hrow hp
      have hallowed := hrows row (Table.mem_select.mpr ⟨hrow, hp⟩)
      exact ⟨hallowed.1, hallowed.2.1⟩
  next => cases h

end Queue

end VerifierCI
