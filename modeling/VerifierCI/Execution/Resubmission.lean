import VerifierCI.Execution.CompletionOrder
import VerifierCI.Python.JsonEquality

/-! # Resubmitting a committed attempt

A committed job answers every further submission under its attempt's id from
the stored row: as a duplicate if the row agrees with what is submitted, with a
conflict otherwise. The row is compared on what the attempt reports. The job and
the fence the submission names are not looked at, and neither is whether an
empty usage was reported as empty or not at all.
-/

namespace VerifierCI

open Python Relational

/-! ## Agreement of two attempts -/

/-- `==` on two resource records. -/
structure ResourceUsage.Same (a b : ResourceUsage) : Prop where
  duration : Option.Rel PyFloat.Same a.duration b.duration
  allocatedCpu : Option.Rel PyFloat.Same a.allocatedCpu b.allocatedCpu
  cpuSeconds : Option.Rel PyFloat.Same a.cpuSeconds b.cpuSeconds
  peakMemory : a.peakMemory = b.peakMemory
  modelUsage : Option.Rel SameCounts a.modelUsage b.modelUsage
  estimatedCost : a.estimatedCost = b.estimatedCost
  pricingVersion : a.pricingVersion = b.pricingVersion
  bytesWritten : a.bytesWritten = b.bytesWritten

/-- The record as it is written: an empty usage reads as none. -/
def ResourceUsage.written (usage : ResourceUsage) : ResourceUsage :=
  { usage with
    modelUsage := match usage.modelUsage with
      | none | some [] => none
      | some counts => some counts }

@[mk_iff]
structure SameReport (a b : EvaluationAttempt) : Prop where
  outcome : a.outcome = b.outcome
  evaluationValidity : a.evaluationValidity = b.evaluationValidity
  errorCode : a.errorCode = b.errorCode
  exitCode : a.exitCode = b.exitCode
  stdoutHash : a.stdoutHash = b.stdoutHash
  stderrHash : a.stderrHash = b.stderrHash
  reportDigest : a.reportDigest = b.reportDigest
  testCollection : a.testCollection = b.testCollection
  testsPassed : a.testsPassed = b.testsPassed
  testsFailed : a.testsFailed = b.testsFailed
  artifactDigests : a.artifactDigests = b.artifactDigests
  captureTruncated : a.captureTruncated = b.captureTruncated

/-- They are the same attempt: also the job, the fence and the resources agree. -/
structure EvaluationAttempt.Agrees (a b : EvaluationAttempt) : Prop extends SameReport a b where
  jobId : a.jobId = b.jobId
  fence : a.fence = b.fence
  resources : a.resources.Same b.resources

/-- What is equal is written equally. -/
theorem ResourceUsage.Same.written {a b : ResourceUsage} (h : a.Same b) :
    a.written.Same b.written where
  duration := h.duration
  allocatedCpu := h.allocatedCpu
  cpuSeconds := h.cpuSeconds
  peakMemory := h.peakMemory
  modelUsage := by
    have husage := h.modelUsage
    simp only [ResourceUsage.written]
    generalize a.modelUsage = x at husage ⊢
    generalize b.modelUsage = y at husage ⊢
    cases husage with
    | none => exact .none
    | @some xs ys hsame =>
        cases xs with
        | nil =>
            obtain rfl : ys = [] := List.length_eq_zero_iff.mp hsame.1.symm
            exact .none
        | cons x xs =>
            cases ys with
            | nil => cases hsame.1
            | cons y ys => exact .some hsame
  estimatedCost := h.estimatedCost
  pricingVersion := h.pricingVersion
  bytesWritten := h.bytesWritten

theorem ResourceUsage.toJson_eq (usage : ResourceUsage) :
    usage.toJson = .obj [
      ("duration", Json.ofOption .float usage.duration),
      ("allocated_cpu", Json.ofOption .float usage.allocatedCpu),
      ("cpu_seconds", Json.ofOption .float usage.cpuSeconds),
      ("peak_memory", Json.ofOption .int usage.peakMemory),
      ("model_usage", Json.ofOption Json.ofCounts usage.written.modelUsage),
      ("estimated_cost", Json.ofOption .str usage.estimatedCost),
      ("pricing_version", Json.ofOption .str usage.pricingVersion),
      ("bytes_written", Json.ofOption .int usage.bytesWritten)] := by
  obtain ⟨_, _, _, _, usage, _, _, _⟩ := usage
  rcases usage with _ | _ | _ <;> rfl

/-- What is read back from the stored dictionary equals what would be written. -/
theorem ResourceUsage.eq_toJson_iff (a b : ResourceUsage) :
    a.toJson.eq b.toJson = true ↔ a.written.Same b.written := by
  simp only [toJson_eq, Json.eq, Json.eqMembers, List.lookup_cons, List.length_cons,
    List.length_nil, Nat.reduceAdd, String.reduceBEq, BEq.rfl, Bool.true_and, Bool.and_true,
    Bool.and_eq_true, Json.eq_optional_float, Json.eq_optional_int, Json.eq_optional_str,
    Json.eq_optional_counts]
  constructor
  · rintro ⟨hduration, hallocated, hcpu, hmemory, husage, hcost, hpricing, hbytes⟩
    exact ⟨hduration, hallocated, hcpu, hmemory, husage, hcost, hpricing, hbytes⟩
  · rintro ⟨hduration, hallocated, hcpu, hmemory, husage, hcost, hpricing, hbytes⟩
    exact ⟨hduration, hallocated, hcpu, hmemory, husage, hcost, hpricing, hbytes⟩

theorem tupleMatches_ofStrings (stored values : List String) :
    tupleMatches (Json.ofStrings stored) values = .ok (decide (stored = values)) := by
  refine congrArg Except.ok ?_
  rw [Bool.eq_iff_iff, Json.eqItems_strings, decide_eq_true_eq]

theorem collectionMatches_ofStrings (stored values : List WideString) :
    collectionMatches (WideJson.ofStrings stored) values = .ok (decide (stored = values)) := by
  refine congrArg Except.ok ?_
  rw [Bool.eq_iff_iff, WideJson.eqStrings_map_str, decide_eq_true_eq]

/-- The row a commit writes agrees with an attempt that reports the same. -/
theorem matchesStored_committedRow (a b : EvaluationAttempt) (finishedAt : Datetime)
    (row : AttemptRow) : ∃ same, matchesStored (committedRow a finishedAt row) b = .ok same ∧
      (same = true ↔ SameReport a b ∧ a.resources.written.Same b.resources.written) := by
  refine ⟨?same, ?stored, ?reported⟩
  case stored =>
    unfold matchesStored committedRow
    simp only [tupleMatches_ofStrings, collectionMatches_ofStrings]
    rfl
  case reported =>
    -- The resources are compared in the middle of the fields a report consists of.
    simp only [sameReport_iff, Bool.and_eq_true, decide_eq_true_eq, ResourceUsage.eq_toJson_iff]
    tauto

/-! ## Answering from the stored row -/

/-- Is the exception an `IdentityConflict`? -/
def Exc.isIdentityConflict : Exc → Bool
  | .verifierCI .identityConflict _ _ => true
  | _ => false

/-- The attempt is the selection of its job, and its row shows what it reported. -/
structure Db.Selects (db : Db) (a : EvaluationAttempt) : Prop where
  job : ∃ row ∈ db.jobs, row.jobId = a.jobId ∧ (row.state = .done ∨ row.state = .failed) ∧
    row.selectedAttemptId = some a.attemptId
  attempt : ∃ finishedAt stored, db.evaluationAttempts.find? a.attemptId =
    some (committedRow a finishedAt stored) ∧ stored.jobId = a.jobId

section Answers

variable {db : Db} {a b : EvaluationAttempt} {again : Job} {nowMs : Int}

/-- The job's own handle is answered from the row, whatever the time. -/
theorem Db.Selects.complete_own (h : db.Selects a) (hjob : again.jobId = a.jobId)
    (hid : b.attemptId = a.attemptId) :
    complete db again b nowMs = (completeSelected db b, db) := by
  obtain ⟨row, hrow, hrowId, hfinished, hselected⟩ := h.job
  have hfind : db.jobs.find? again.jobId = some row := by
    rw [hjob, ← hrowId]
    exact Table.find?_of_mem hrow
  have hterminal : row.state.isTerminal = true := by
    rcases hfinished with hdone | hfailed
    · rw [hdone]
      rfl
    · rw [hfailed]
      rfl
  have hfresh : quarantines db again b nowMs = false := by
    simp [quarantines, hfind, hterminal, hselected, hid]
  have hopen : commits db again b nowMs = false := by
    simp [commits, hfind, hterminal]
  rw [complete_of_neither hfresh hopen, readAnswer, hfind]
  simp only [hterminal, if_true]

/-- The row is a duplicate of what reports the same, and of nothing else. -/
theorem Db.Selects.completeSelected (h : db.Selects a) (hid : b.attemptId = a.attemptId) :
    (SameReport a b ∧ a.resources.written.Same b.resources.written →
      completeSelected db b = .ok .duplicate) ∧
    (¬ (SameReport a b ∧ a.resources.written.Same b.resources.written) →
      ∃ exc : Exc, exc.isIdentityConflict = true ∧ completeSelected db b = .error exc) := by
  obtain ⟨finishedAt, stored, hstored, _⟩ := h.attempt
  obtain ⟨same, hsame, hiff⟩ := matchesStored_committedRow a b finishedAt stored
  rw [VerifierCI.completeSelected, hid, hstored]
  simp only [hsame]
  cases same with
  | true => exact ⟨fun _ => rfl, fun hnot => absurd (hiff.mp rfl) hnot⟩
  | false =>
      refine ⟨fun hreports => ?_, fun _ => ⟨_, rfl, rfl⟩⟩
      cases hiff.mpr hreports

/-- What a job has selected, and what it is held with, are rows of that job. -/
theorem QueueInv.attempt_of_job (hinv : QueueInv db) {row : Job} {stored : AttemptRow}
    (hrow : row ∈ db.jobs) (hstored : stored ∈ db.evaluationAttempts)
    (hnamed : row.selectedAttemptId = some stored.attemptId ∨
      (row.state.isHeld = true ∧ row.attemptId = some stored.attemptId)) :
    stored.jobId = row.jobId := by
  have hledger := hinv.of_mem hrow
  obtain ⟨other, hother, hid⟩ : ∃ other ∈ (db.ledgerOf row).attempts,
      other.attemptId = stored.attemptId := by
    rcases hnamed with hselected | ⟨hheld, hcurrent⟩
    · obtain ⟨_, other, hother, hid, _⟩ := hledger.selection _ hselected
      exact ⟨other, hother, hid⟩
    · obtain ⟨_, _, _, other, hother, hid, _⟩ := hledger.held hheld
      exact ⟨other, hother, Option.some.inj (hid.symm.trans hcurrent)⟩
  obtain ⟨hmem, hjob⟩ := mem_ledgerOf.mp hother
  rw [← Table.eq_of_key_eq hmem hstored hid]
  exact hjob

/-- A handle for another job is told neither. -/
theorem complete_of_foreign (hinv : QueueInv db) {stored : AttemptRow}
    (hstored : db.evaluationAttempts.find? b.attemptId = some stored)
    (hforeign : stored.jobId ≠ again.jobId) :
    (complete db again b nowMs).1 ≠ .ok .duplicate ∧
      ∀ exc, (complete db again b nowMs).1 = .error exc → exc.isIdentityConflict = false := by
  have hmem : stored ∈ db.evaluationAttempts := Table.mem_of_find? hstored
  have hid : stored.attemptId = b.attemptId := Table.key_of_find? hstored
  rcases completeBody_cases db again b nowMs with
    ⟨hstale, _, _⟩ | ⟨_, hcommits, _⟩ | ⟨hfresh, hopen, _⟩
  · rcases complete_of_quarantines hstale with ⟨now, _, heq⟩ | ⟨_, exc, hstorage, heq⟩
    · rw [heq]
      exact ⟨by simp, nofun⟩
    · rw [heq]
      refine ⟨by simp, ?_⟩
      rintro _ ⟨⟩
      cases exc <;> simp_all [Exc.isStorage, Exc.isIdentityConflict]
  · obtain ⟨row, other, hguard⟩ := commits_iff.mp hcommits
    obtain rfl : stored = other := Option.some.inj (hstored.symm.trans hguard.stored_eq)
    exact absurd hguard.stored_job hforeign
  -- Both remaining branches would tie the attempt to the job of the handle.
  · rw [complete_of_neither hfresh hopen, readAnswer]
    cases hfind : db.jobs.find? again.jobId with
    | none =>
        refine ⟨by simp [raiseWith], ?_⟩
        rintro _ ⟨⟩
        rfl
    | some row =>
        have hrow : row ∈ db.jobs := Table.mem_of_find? hfind
        have hother : stored.jobId ≠ row.jobId := by
          rw [show row.jobId = again.jobId from Table.key_of_find? hfind]
          exact hforeign
        simp only [quarantines, hfind] at hfresh
        cases hterminal : row.state.isTerminal with
        | true =>
            have hselected : row.selectedAttemptId = some stored.attemptId := by
              simpa [hterminal, hid] using hfresh
            exact absurd (hinv.attempt_of_job hrow hmem (Or.inl hselected)) hother
        | false =>
            have hlive : leaseLapsed row again b nowMs = false := by
              simpa [hterminal] using hfresh
            simp only [leaseLapsed, Bool.or_eq_false_iff, decide_eq_false_iff_not, not_not] at hlive
            obtain ⟨⟨hexpires, _⟩, hcurrent⟩ := hlive
            rw [← hid] at hcurrent
            exact absurd (hinv.attempt_of_job hrow hmem
              (Or.inr ⟨hinv.held_of_live hfind hexpires, hcurrent⟩)) hother

end Answers

/-! ## Everything that follows a commit -/

/-- What calls of the queue and the artifact store make of a database. -/
inductive Db.Later (db : Db) : Db → Prop
  | refl : db.Later db
  | call {later : Db} (h : db.Later later) (op : Operation) : db.Later (later.call op)
  | artifacts {later : Db} (h : db.Later later) (artifacts : Table ArtifactRow.key) :
      db.Later { later with artifacts := artifacts }

theorem Db.Later.queueInv {db later : Db} (h : db.Later later) (hinv : QueueInv db) :
    QueueInv later := by
  induction h with
  | refl => exact hinv
  | call _ op ih => exact call_queueInv ih op
  | artifacts _ artifacts ih => exact ih.artifacts artifacts

section Later

variable {db db' : Db} {handle : Job} {a : EvaluationAttempt} {nowMs : Int}

/-- A call leaves a selection as it is. -/
theorem Db.Selects.call (hinv : QueueInv db) (h : db.Selects a) (op : Operation) :
    (db.call op).Selects a := by
  have hsettled : Settled db (db.call op) := (call_evolves hinv op).settled
  obtain ⟨row, hrow, hid, hfinished, hselected⟩ := h.job
  obtain ⟨finishedAt, stored, hstored, hjob⟩ := h.attempt
  have hkept := hsettled.attempt row hrow hfinished (committedRow a finishedAt stored)
    (Table.mem_of_find? hstored) (hjob.trans hid.symm) rfl
  rw [show (committedRow a finishedAt stored).attemptId = a.attemptId from
    Table.key_of_find? hstored] at hkept
  exact ⟨⟨row, Table.mem_of_find? (hsettled.job row hrow hfinished), hid, hfinished, hselected⟩,
    ⟨finishedAt, stored, hkept, hjob⟩⟩

/-- The selected attempt and its row are frozen with the job that selects it. -/
theorem Db.Selects.later (hinv : QueueInv db) (h : db.Selects a) (hlater : db.Later db') :
    db'.Selects a := by
  induction hlater with
  | refl => exact h
  | call hbefore op ih => exact ih.call (hbefore.queueInv hinv) op
  | artifacts _ artifacts ih => exact ⟨ih.job, ih.attempt⟩

/-- A commit selects its attempt. -/
theorem selects_of_committed (h : (complete db handle a nowMs).1 = .ok .committed) :
    (complete db handle a nowMs).2.Selects a := by
  rcases complete_spec db handle a nowMs with
    ⟨_, now, _, heq⟩ | ⟨hcommits, finishedAt, db', _, hrun, heq⟩ | ⟨result, heq, hne⟩
  · rw [heq] at h
    cases h
  · obtain ⟨row, stored, hguard⟩ := commits_iff.mp hcommits
    obtain ⟨runs, rfl, _⟩ := updateRunState_ok hrun
    have hjob : row.jobId = handle.jobId := Table.key_of_find? hguard.row_eq
    have hattempt : stored.attemptId = a.attemptId := Table.key_of_find? hguard.stored_eq
    rw [heq]
    refine ⟨⟨finishedRow a row, ?_, hjob.trans hguard.attempt_job.symm,
      JobState.isFinished_iff.mp (terminalOf_finished a), rfl⟩,
      ⟨finishedAt, stored, ?_, hguard.stored_job.trans hguard.attempt_job.symm⟩⟩
    · refine Table.mem_of_find? (k := handle.jobId) ?_
      simp [committedDb, Table.find?_update, hguard.row_eq, hjob]
    · simp [committedDb, Table.find?_update, hguard.stored_eq, hattempt]
  · rw [heq] at h
    exact absurd h hne

end Later

/-! ## Resubmissions -/

/-- The answer to `b` is the one its agreement with `a` calls for, and the
database stays. -/
structure Answered (db : Db) (again : Job) (a b : EvaluationAttempt) (nowMs : Int) : Prop where
  duplicate : a.Agrees b → complete db again b nowMs = (.ok .duplicate, db)
  conflict : ¬ a.Agrees b → ∃ exc : Exc, exc.isIdentityConflict = true ∧
    complete db again b nowMs = (.error exc, db)

/-- The queue of one job after its only claim, and after its commit. -/
def soloLeased : Db :=
  soloDb.call soloClaim

def soloCommitted : Db :=
  (complete soloLeased soloHandle (acceptingAttempt "attempt" "job" 1) 1000).2

theorem soloLeased_commits :
    (complete soloLeased soloHandle (acceptingAttempt "attempt" "job" 1) 1000).1 =
      .ok .committed := by
  decide

end VerifierCI
