import VerifierCI.Execution.Fencing

/-! # What a live lease can commit

Under a live lease every result whose columns agree with each other and whose
digests are registered is committed. Artifacts come and go without touching
the queue.
-/

namespace VerifierCI

open Python Relational

/-- A result the database accepts as authoritative. -/
structure EvaluationAttempt.Gradable (attempt : EvaluationAttempt) (db : Db) (nowMs : Int) : Prop
    extends attempt.Recordable nowMs where
  status : (attempt.evaluationValidity = .valid ∧
      (attempt.outcome = some .accept ∨ attempt.outcome = some .reject)) ∨
    (attempt.evaluationValidity = .invalid ∧
      (attempt.outcome = some .invalidEvaluation ∨ attempt.outcome = some .error))
  stdoutHash : db.HasArtifact attempt.stdoutHash
  stderrHash : db.HasArtifact attempt.stderrHash
  reportDigest : db.HasArtifact attempt.reportDigest

section Live

variable {db : Db} {job row : Job} {attempt : EvaluationAttempt} {nowMs : Int}

theorem not_terminal_of_held {state : JobState} (hheld : state.isHeld = true) :
    state.isTerminal = false := by
  rcases JobState.isHeld_iff.mp hheld with rfl | rfl <;> rfl

/-- A live handle passes every check of a completion. The attempt it refers to is the current
one of the job, which the invariant of the ledgers keeps active as long as the lease is held. -/
theorem LiveHandle.commitGuard (hinv : QueueInv db)
    (hrow : db.jobs.find? job.jobId = some row) (hlive : LiveHandle row job nowMs)
    (hsubmits : Submits job attempt) :
    ∃ stored, CommitGuard db job attempt nowMs row stored := by
  have hid : row.jobId = job.jobId := Table.key_of_find? hrow
  obtain ⟨_, _, _, stored, hstored, hcurrent, hfence, _⟩ :=
    (hinv.of_mem (Table.mem_of_find? hrow)).held hlive.held
  obtain ⟨hmem, hjobId⟩ := mem_ledgerOf.mp hstored
  have hattemptId : row.attemptId = some attempt.attemptId := by
    rw [hlive.attemptId (by rw [hsubmits.attemptId]; rfl), hsubmits.attemptId]
  have hstoredId : stored.attemptId = attempt.attemptId :=
    Option.some.inj (hcurrent.symm.trans hattemptId)
  exact ⟨stored, {
    row_eq := hrow
    not_terminal := not_terminal_of_held hlive.held
    fence := hlive.fence
    leaseToken := hlive.leaseToken
    live := hlive.expires
    current := hattemptId
    worker := hlive.workerId
    stored_eq := hstoredId ▸ Table.find?_of_mem hmem
    stored_job := hjobId.trans hid
    stored_fence := hfence.trans hlive.fence
    attempt_job := hsubmits.jobId
    attempt_fence := hsubmits.fence }⟩

/-- The row written for a result the database accepts meets the constraints of the table. -/
theorem EvaluationAttempt.Gradable.check (h : attempt.Gradable db nowMs) (finishedAt : Datetime)
    {stored : AttemptRow} (hstored : stored.Check) :
    (committedRow attempt finishedAt stored).Check where
  fence := hstored.fence
  testsPassed := fun n hn => (h.testsPassed n hn).1
  testsFailed := fun n hn => (h.testsFailed n hn).1
  testCollection := WideJson.finite_ofStrings _
  resources := h.resources
  artifactDigests := Json.isValid_ofStrings _
  status := by
    rcases h.status with hvalid | ⟨hinvalid, houtcome⟩
    · exact Or.inr (Or.inl hvalid)
    · exact Or.inr (Or.inr ⟨hinvalid, Or.inl houtcome⟩)

/-- The clock is read at most twice, and the second time only to close the run. At a date both
readings succeed. -/
theorem EvaluationAttempt.Gradable.committable (hinv : QueueInv db) {stored : AttemptRow}
    (hguard : CommitGuard db job attempt nowMs row stored) (h : attempt.Gradable db nowMs) :
    ∃ finishedAt, Committable db job attempt nowMs finishedAt := by
  obtain ⟨now, hnow⟩ := Option.isSome_iff_exists.mp h.clock
  have hclock : isoOfMs nowMs = .ok now := by rw [isoOfMs, hnow]
  obtain ⟨finishedAt, hfinished⟩ : ∃ finishedAt, finishedAtOf attempt nowMs = .ok finishedAt := by
    unfold finishedAtOf
    split
    · exact ⟨_, rfl⟩
    · exact ⟨now, hclock⟩
  have hchecks : ∀ other ∈ db.evaluationAttempts, other.attemptId = attempt.attemptId →
      (committedRow attempt finishedAt other).Check := by
    intro other hother _
    obtain ⟨owner, howner, _, hmem⟩ := hinv.job_of_attempt hother
    exact h.check finishedAt ((hinv.of_mem howner).checks other hmem)
  have hcommitted : Evolves (Ledger.Commit attempt) db (committedDb db job attempt finishedAt) :=
    committedDb_evolves hinv hguard hchecks
  -- Each field is one way in which the commit could raise; none is taken.
  refine ⟨finishedAt, {
    clock := hfinished
    dumped := dumps_eq_ok h.spellable
    exitCode := bindInteger_eq_ok h.exitCode
    testsPassed := bindInteger_eq_ok fun n hn => ⟨minInteger_le (h.testsPassed n hn).1,
      (h.testsPassed n hn).2⟩
    testsFailed := bindInteger_eq_ok fun n hn => ⟨minInteger_le (h.testsFailed n hn).1,
      (h.testsFailed n hn).2⟩
    allowed := ⟨?_, ?_⟩
    closing := fun _ => ⟨now, hclock⟩ }⟩
  · intro other hother hid
    obtain rfl : stored = other := Table.eq_of_key_eq (Table.mem_of_find? hguard.stored_eq) hother
      ((Table.key_of_find? hguard.stored_eq).trans (of_decide_eq_true hid).symm)
    refine ⟨?_, hchecks stored hother (of_decide_eq_true hid), h.stdoutHash, h.stderrHash,
      h.reportDigest⟩
    have hledger := hinv.of_mem (Table.mem_of_find? hguard.row_eq)
    have hid' : stored.jobId = row.jobId :=
      hguard.stored_job.trans (Table.key_of_find? hguard.row_eq).symm
    exact hledger.not_authoritative_of_held (hguard.held hinv)
      (mem_ledgerOf.mpr ⟨hother, hid'⟩)
  -- A second authoritative row would break an invariant that commits keep.
  · have hnext : QueueInv (committedDb db job attempt finishedAt) :=
      (hcommitted.mono fun _ _ hcommit => Or.inr ⟨attempt, hcommit⟩).queueInv hinv
    exact hnext.authorityUnique

/-- A gradable result that is submitted under its live lease is committed. -/
theorem complete_of_live (hinv : QueueInv db) (hrow : db.jobs.find? job.jobId = some row)
    (hlive : LiveHandle row job nowMs) (hsubmits : Submits job attempt)
    (h : attempt.Gradable db nowMs) : (complete db job attempt nowMs).1 = .ok .committed := by
  obtain ⟨stored, hguard⟩ := hlive.commitGuard hinv hrow hsubmits
  exact complete_committed_iff.mpr ⟨commits_iff.mpr ⟨row, stored, hguard⟩,
    h.committable hinv hguard⟩

end Live

/-! ## Reachable queues -/

/-- The databases that calls of the queue and the artifact store lead to. -/
inductive Db.Reachable : Db → Prop
  | fresh {db : Db} (h : db.Fresh) : Db.Reachable db
  | call {db : Db} (h : Db.Reachable db) (op : Operation) : Db.Reachable (db.call op)
  | artifacts {db : Db} (h : Db.Reachable db) (artifacts : Table ArtifactRow.key) :
      Db.Reachable { db with artifacts := artifacts }

/-- Artifacts are no part of a ledger. -/
theorem QueueInv.artifacts {db : Db} (h : QueueInv db) (artifacts : Table ArtifactRow.key) :
    QueueInv { db with artifacts := artifacts } :=
  ⟨h.ledgers, h.owned⟩

theorem Db.Reachable.queueInv {db : Db} (h : db.Reachable) : QueueInv db := by
  induction h with
  | fresh h => exact .of_fresh h
  | call _ op ih => exact call_queueInv ih op
  | artifacts _ artifacts ih => exact ih.artifacts artifacts

theorem Db.Reachable.run {db : Db} (h : db.Reachable) (ops : List Operation) :
    (Transition.run Db.call db ops).Reachable :=
  Transition.run_invariant Db.Reachable (fun _ op hdb => hdb.call op) h ops

end VerifierCI
