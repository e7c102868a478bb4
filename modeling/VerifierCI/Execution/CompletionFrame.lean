import VerifierCI.Execution.Operations

/-! # The frame of a completion

What a completion may touch, in any database and with any arguments. Late
evidence is written under the job the submission itself claims, so a handle on
one job can quarantine an open attempt of another; nothing else escapes.
-/

namespace VerifierCI

open Python Relational

/-- The row as a quarantine may leave it. -/
structure Quarantined (row row' : AttemptRow) : Prop where
  before : row.disposition = .active ∨ row.disposition = .abandoned
  disposition : row'.disposition = .stale
  discarded : Discarded row'

/-- `complete` stays within its own job, and when it does not commit it touches
at most the submitted attempt's row, to quarantine it. -/
structure CompletionFrame (db : Db) (job : Job) (attempt : EvaluationAttempt)
    (result : Except Exc CompletionStatus) (db' : Db) : Prop where
  attempts : ∀ row ∈ db.evaluationAttempts, row.jobId ≠ job.jobId →
    db'.evaluationAttempts.find? row.attemptId = some row
  jobs : ∀ row ∈ db.jobs, row.jobId ≠ job.jobId → db'.jobs.find? row.jobId = some row
  refused : result ≠ .ok .committed → db'.jobs = db.jobs ∧ db'.auditRuns = db.auditRuns ∧
    ∀ row ∈ db.evaluationAttempts, db'.evaluationAttempts.find? row.attemptId = some row ∨
      (row.attemptId = attempt.attemptId ∧
        ∃ row', db'.evaluationAttempts.find? row.attemptId = some row' ∧ Quarantined row row')
  attemptIds : db'.evaluationAttempts.rows.map AttemptRow.attemptId =
    db.evaluationAttempts.rows.map AttemptRow.attemptId
  jobIds : db'.jobs.rows.map Job.jobId = db.jobs.rows.map Job.jobId

/-- The submission names an open attempt of a job other than the handle's. -/
def Misdirected (db : Db) (job : Job) (attempt : EvaluationAttempt) : Prop :=
  attempt.jobId ≠ job.jobId ∧ ∃ row ∈ db.evaluationAttempts, quarantineTarget attempt row = true

section Frame

variable {db : Db} {job : Job} {attempt : EvaluationAttempt} {nowMs : Int}

theorem quarantineTarget_iff {row : AttemptRow} :
    quarantineTarget attempt row = true ↔ row.attemptId = attempt.attemptId ∧
      row.jobId = attempt.jobId ∧ (row.disposition = .active ∨ row.disposition = .abandoned) := by
  simp [quarantineTarget, AttemptRow.isOpen, and_assoc]

/-- A call that leaves the database alone is within every frame. -/
theorem CompletionFrame.of_unchanged (result : Except Exc CompletionStatus) :
    CompletionFrame db job attempt result db where
  attempts := fun _ hrow _ => Table.find?_of_mem hrow
  jobs := fun _ hrow _ => Table.find?_of_mem hrow
  refused := fun _ => ⟨rfl, rfl, fun _ hrow => Or.inl (Table.find?_of_mem hrow)⟩
  attemptIds := rfl
  jobIds := rfl

/-- The row a quarantine writes is found in place of its target. -/
theorem quarantinedDb_find?_target {now : Datetime} {row : AttemptRow}
    (hrow : row ∈ db.evaluationAttempts) (htarget : quarantineTarget attempt row = true) :
    (quarantinedDb db attempt now).evaluationAttempts.find? row.attemptId =
      some (quarantine db attempt now row) := by
  rw [quarantinedDb, Table.find?_update, Table.find?_of_mem hrow, Option.map_some, if_pos htarget]

/-- Quarantine writes the row of the attempt that was submitted, which belongs to the job unless
the submission is misdirected. -/
theorem CompletionFrame.of_quarantine {now : Datetime} (result : Except Exc CompletionStatus)
    (hdirected : ¬ Misdirected db job attempt) :
    CompletionFrame db job attempt result (quarantinedDb db attempt now) where
  attempts := by
    intro row hrow hother
    apply quarantinedDb_find?_of_not hrow
    rw [Bool.eq_false_iff]
    intro htarget
    have hjobId := (quarantineTarget_iff.mp htarget).2.1
    exact hdirected ⟨hjobId ▸ hother, row, hrow, htarget⟩
  jobs := fun _ hrow _ => Table.find?_of_mem hrow
  refused := by
    refine fun _ => ⟨rfl, rfl, fun row hrow => ?_⟩
    cases htarget : quarantineTarget attempt row with
    | false => exact Or.inl (quarantinedDb_find?_of_not hrow htarget)
    | true =>
        obtain ⟨hid, _, hopen⟩ := quarantineTarget_iff.mp htarget
        exact Or.inr ⟨hid, _, quarantinedDb_find?_target hrow htarget, hopen, rfl,
          quarantine_discarded db attempt now row⟩
  attemptIds := map_rewriteRows AttemptRow.attemptId (quarantine_attemptId db attempt now)
  jobIds := rfl

/-- A commit writes the attempt, the job and the state of its run. -/
theorem CompletionFrame.of_commit {row : Job} {stored : AttemptRow} {finishedAt : Datetime}
    {db' : Db} (hguard : CommitGuard db job attempt nowMs row stored)
    (hrun : updateRunState (committedDb db job attempt finishedAt) job.runId nowMs = .ok db') :
    CompletionFrame db job attempt (.ok .committed) db' := by
  obtain ⟨runs, rfl, _⟩ := updateRunState_ok hrun
  refine ⟨?_, ?_, fun hne => absurd rfl hne, ?_, ?_⟩
  · intro other hother hne
    have hid : other.attemptId ≠ attempt.attemptId := by
      intro hsame
      have hstored : stored = other := Table.eq_of_key_eq (Table.mem_of_find? hguard.stored_eq)
        hother ((Table.key_of_find? hguard.stored_eq).trans hsame.symm)
      exact hne (hstored ▸ hguard.stored_job)
    rw [committedDb, Table.find?_update, Table.find?_of_mem hother]
    simp [hid]
  · intro other hother hne
    have hkept : (committedDb db job attempt finishedAt).jobs.find? other.jobId = some other :=
      committedDb_find?_of_ne hother hne
    exact hkept
  · exact map_rewriteRows AttemptRow.attemptId (committedRow_attemptId attempt finishedAt)
  · have hids : (db.jobs.update (fun other => other.jobId = job.jobId) (finishedRow attempt)
        (finishedRow_jobId attempt)).rows.map Job.jobId = db.jobs.rows.map Job.jobId :=
      Table.keys_update db.jobs
    exact hids

/-- A completion stays within its frame unless it quarantines evidence for an open attempt of
another job. Late evidence is filed under the identity the submission claims, not under that of
the handle. -/
theorem completionFrame_iff (db : Db) (job : Job) (attempt : EvaluationAttempt) (nowMs : Int) :
    CompletionFrame db job attempt (complete db job attempt nowMs).1
        (complete db job attempt nowMs).2 ↔
      ¬ (Misdirected db job attempt ∧ quarantines db job attempt nowMs = true ∧
        ∃ now, Quarantinable db attempt nowMs now) := by
  constructor
  · rintro hframe ⟨⟨hother, row, hrow, htarget⟩, hquarantines, now, hnow⟩
    rcases complete_of_quarantines hquarantines with ⟨_, _, heq⟩ | ⟨hrefused, _⟩
    · rw [heq] at hframe
      have hjobId := (quarantineTarget_iff.mp htarget).2.1
      have hkept := hframe.attempts row hrow (hjobId ▸ hother)
      rw [quarantinedDb_find?_target hrow htarget] at hkept
      -- the row was open and is stale now
      have hstale : row.disposition = .stale := by
        rw [← Option.some.inj hkept]
        rfl
      have hopen := (quarantineTarget_iff.mp htarget).2.2
      rw [hstale] at hopen
      rcases hopen with hopen | hopen <;> cases hopen
    · exact hrefused now hnow
  · intro hclear
    rcases complete_spec db job attempt nowMs with
      ⟨hquarantines, now, hnow, heq⟩ | ⟨hcommits, _, db', _, hrun, heq⟩ | ⟨result, heq, _⟩
    · rw [heq]
      exact .of_quarantine _ fun hmisdirected => hclear ⟨hmisdirected, hquarantines, now, hnow⟩
    · rw [heq]
      obtain ⟨row, stored, hguard⟩ := commits_iff.mp hcommits
      exact .of_commit hguard hrun
    · rw [heq]
      exact .of_unchanged result

end Frame

def pairDb : Db :=
  { soloDb with jobs := ⟨[plannedJob "job", { plannedJob "other" with repetition := 1 }], by decide⟩
    }

theorem otherAttempt_ne : "other-attempt" ≠ "" := by decide

def pairClaimed : Db :=
  Transition.run Db.call pairDb
    [soloClaim,
      .claim "worker" 0 none defaultLeaseMs ⟨"other-attempt", "other-token", otherAttempt_ne⟩]

/-- A lapsed handle on one job, completed with the live attempt of another,
quarantines that attempt. -/
theorem completion_escapes_frame :
    ¬ CompletionFrame pairClaimed soloHandle (acceptingAttempt "other-attempt" "other" 1)
      (complete pairClaimed soloHandle (acceptingAttempt "other-attempt" "other" 1) 40000).1
      (complete pairClaimed soloHandle (acceptingAttempt "other-attempt" "other" 1) 40000).2 := by
  intro hframe
  have hlive : ((pairClaimed.evaluationAttempts.find? "other-attempt").map fun row =>
      (row.jobId, row.disposition)) = some ("other", .active) := by decide
  have hstale : (((complete pairClaimed soloHandle (acceptingAttempt "other-attempt" "other" 1)
      40000).2.evaluationAttempts.find? "other-attempt").map fun row => row.disposition) =
        some .stale := by decide
  obtain ⟨row, hrow, hpair⟩ := Option.map_eq_some_iff.mp hlive
  obtain ⟨hjobId, hactive⟩ := Prod.mk.inj hpair
  have hkept := hframe.attempts row (Table.mem_of_find? hrow) (by rw [hjobId]; decide)
  rw [Table.key_of_find? hrow] at hkept
  rw [hkept, Option.map_some, hactive] at hstale
  cases hstale

end VerifierCI
