import VerifierCI.Execution.Committing
import VerifierCI.Execution.CompletionFrame
import VerifierCI.Execution.RunLifecycle

/-! # Completions of different jobs commute

A completion writes the row of one job and the row of one attempt, and then
recomputes the run from all its jobs. Two completions of different jobs share
nothing but that run, and whichever of them comes second finds the same jobs.
-/

namespace VerifierCI

open Python Relational

/-! ## The run recomputed -/

/-- The row of a run as its jobs call for, closed at `now` if it is closed. -/
def settledRow (jobs : List Job) (now : Datetime) (run : AuditRunRow) : AuditRunRow :=
  if run.state.isTerminal || jobs.isEmpty then run
  else if jobs.all fun job => job.state.isFinished then
    closedRun (if run.cancelRequested then .cancelled
      else if jobs.any fun job => job.state = .failed then .failed
      else .complete) now run
  else if run.state = .planned then startedRun run
  else run

theorem settledRow_runId (jobs : List Job) (now : Datetime) (run : AuditRunRow) :
    (settledRow jobs now run).runId = run.runId := by
  unfold settledRow
  split
  · rfl
  · split
    · rfl
    · split <;> rfl

section Settling

variable {db : Db} {runId : String} {nowMs : Int} {now : Datetime}

/-- Two updates of a run are the same if they agree on the row that is stored. -/
theorem updateRun_congr {f g : AuditRunRow → AuditRunRow}
    {hf : ∀ row, (f row).runId = row.runId} {hg : ∀ row, (g row).runId = row.runId}
    (h : ∀ run, db.auditRuns.find? runId = some run → f run = g run) :
    db.updateRun runId f hf = db.updateRun runId g hg := by
  unfold Db.updateRun
  congr 1
  apply Table.update_congr
  intro run hrun hid
  rw [decide_eq_true_eq] at hid
  exact h run (hid ▸ Table.find?_of_mem hrun)

theorem updateRun_eq_self {f : AuditRunRow → AuditRunRow} {hf : ∀ row, (f row).runId = row.runId}
    (h : ∀ run, db.auditRuns.find? runId = some run → f run = run) :
    db.updateRun runId f hf = db := by
  unfold Db.updateRun
  rw [Table.update_eq_self_of_fixed]
  intro run hrun hid
  rw [decide_eq_true_eq] at hid
  exact h run (hid ▸ Table.find?_of_mem hrun)

/-- At a time that can be written down the run gets the row its jobs call for. Written
as one update of the row, recomputing the state can be compared for two orders of the
same completions. -/
theorem updateRunState_settled (hclock : isoOfMs nowMs = .ok now) :
    updateRunState db runId nowMs = .ok (db.updateRun runId
      (settledRow (db.runJobs runId) now) (settledRow_runId (db.runJobs runId) now)) := by
  rw [updateRunState_eq]
  cases hrun : db.auditRuns.find? runId with
  | none =>
      have hself : db.updateRun runId (settledRow (db.runJobs runId) now)
          (settledRow_runId (db.runJobs runId) now) = db := updateRun_eq_self (by simp [hrun])
      rw [hself, closesRun, startedDb, hrun]
      rfl
  | some run =>
      -- The cases are those of the source: the run closes, starts, or stays as it is.
      cases hcloses : closesRun db runId with
      | true =>
          rw [if_pos rfl, hclock]
          refine congrArg Except.ok (updateRun_congr ?_)
          intro other hother
          obtain rfl := Option.some.inj (hrun.symm.trans hother)
          simp only [closesRun, hrun, Bool.and_eq_true, Bool.not_eq_true'] at hcloses
          obtain ⟨⟨hopen, hjobs⟩, hall⟩ := hcloses
          simp only [settledRow, hopen, hjobs, hall, Bool.or_self, Bool.false_eq_true, if_false,
            if_true, closedState, cancelRequested, hrun]
      | false =>
          rw [if_neg (by simp)]
          refine congrArg Except.ok ?_
          rw [startedDb, hrun]
          dsimp only
          simp only [closesRun, hrun] at hcloses
          split
          next hstarted =>
            refine updateRun_congr ?_
            intro other hother
            obtain rfl := Option.some.inj (hrun.symm.trans hother)
            obtain ⟨hplanned, hactive⟩ := hstarted
            obtain ⟨job, hjob, hunfinished⟩ := List.any_eq_true.mp hactive
            have hjobs : (db.runJobs runId).isEmpty = false := by
              rw [List.isEmpty_eq_false_iff]
              exact List.ne_nil_of_mem hjob
            -- an unfinished job keeps the run from closing
            have hall : ¬ ((db.runJobs runId).all fun job => job.state.isFinished) = true := by
              intro hall
              have hfinished := List.all_eq_true.mp hall job hjob
              simp [hfinished] at hunfinished
            have hopen : run.state.isTerminal = false := by
              rw [hplanned]
              rfl
            rw [settledRow, if_neg (by simp [hopen, hjobs]), if_neg hall, if_pos hplanned]
          next hkept =>
            refine (updateRun_eq_self ?_).symm
            intro other hother
            obtain rfl := Option.some.inj (hrun.symm.trans hother)
            unfold settledRow
            split
            · rfl
            next hopen =>
              -- not terminal and with jobs, the run is open because some job is unfinished
              rw [Bool.or_eq_true, not_or, Bool.not_eq_true, Bool.not_eq_true] at hopen
              have hall : ((db.runJobs runId).all fun job => job.state.isFinished) = false := by
                simpa [hopen.1, hopen.2] using hcloses
              rw [if_neg (by simp [hall]), if_neg]
              intro hplanned
              refine hkept ⟨hplanned, ?_⟩
              rw [List.any_eq_not_all_not]
              simp [hall]

/-- While some job is unfinished the recomputed row shows neither the jobs nor
the time. -/
theorem settledRow_of_unfinished {jobs : List Job} {job : Job} (hjob : job ∈ jobs)
    (hunfinished : job.state.isFinished = false) (run : AuditRunRow) :
    settledRow jobs now run = if run.state = .planned then startedRun run else run := by
  have hall : ¬ (jobs.all fun job => job.state.isFinished) = true := by
    intro hall
    have hfinished := List.all_eq_true.mp hall job hjob
    rw [hunfinished] at hfinished
    cases hfinished
  have hjobs : jobs.isEmpty = false := by
    rw [List.isEmpty_eq_false_iff]
    exact List.ne_nil_of_mem hjob
  unfold settledRow
  rw [hjobs, Bool.or_false, if_neg hall]
  split
  next hterminal =>
    rw [if_neg]
    intro hplanned
    rw [hplanned] at hterminal
    cases hterminal
  next => rfl

/-- A run without its finish time. -/
def AuditRunRow.undated (run : AuditRunRow) : AuditRunRow :=
  { run with finishedAt := none }

/-- The time at which a run is recomputed shows in its finish time only. -/
theorem settledRow_undated (jobs : List Job) (now later : Datetime) (run : AuditRunRow) :
    (settledRow jobs now run).undated = (settledRow jobs later run).undated := by
  unfold settledRow
  split
  · rfl
  · split <;> rfl

end Settling

/-! ## What a completion reads -/

/-- The answer of a completion that neither quarantines nor commits. -/
def readAnswer (db : Db) (job : Job) (attempt : EvaluationAttempt) : Except Exc CompletionStatus :=
  match db.jobs.find? job.jobId with
  | none => raiseWith .infrastructureError ("Job '" ++ job.jobId ++ "' not found.")
  | some row =>
      if row.state.isTerminal then completeSelected db attempt
      else if workerMismatch row job then .ok .stale
      else raiseWith .identityConflict ("Attempt '" ++ attempt.attemptId ++
        "' does not match job '" ++ job.jobId ++ "' with fence " ++ toString job.fence ++ ".")

section Reading

variable {db db' : Db} {job : Job} {attempt : EvaluationAttempt} {nowMs : Int}

theorem quarantines_congr (hjob : db'.jobs.find? job.jobId = db.jobs.find? job.jobId) :
    quarantines db' job attempt nowMs = quarantines db job attempt nowMs := by
  rw [quarantines, hjob, quarantines]

theorem commits_congr (hjob : db'.jobs.find? job.jobId = db.jobs.find? job.jobId)
    (hattempt : db'.evaluationAttempts.find? attempt.attemptId =
      db.evaluationAttempts.find? attempt.attemptId) :
    commits db' job attempt nowMs = commits db job attempt nowMs := by
  rw [commits, hjob, commits]
  simp only [identityAgrees, hattempt]

/-- What a completion answers without writing depends on the rows of its own job and attempt. -/
theorem readAnswer_congr (hjob : db'.jobs.find? job.jobId = db.jobs.find? job.jobId)
    (hattempt : db'.evaluationAttempts.find? attempt.attemptId =
      db.evaluationAttempts.find? attempt.attemptId) :
    readAnswer db' job attempt = readAnswer db job attempt := by
  rw [readAnswer, hjob, readAnswer]
  simp only [completeSelected, hattempt]

theorem completeBody_of_neither (hfresh : quarantines db job attempt nowMs = false)
    (hopen : commits db job attempt nowMs = false) :
    completeBody db job attempt nowMs = (readAnswer db job attempt).map (·, db) := by
  unfold completeBody readAnswer
  cases hrow : db.jobs.find? job.jobId with
  | none => rfl
  | some row =>
      simp only [quarantines, hrow] at hfresh
      simp only [commits, hrow] at hopen
      dsimp only
      cases hterminal : row.state.isTerminal with
      | true =>
          have hselected : row.selectedAttemptId = some attempt.attemptId := by
            simpa [hterminal] using hfresh
          simp only [if_true, completeTerminal, if_pos hselected]
          cases completeSelected db attempt <;> rfl
      | false =>
          have hlive : leaseLapsed row job attempt nowMs = false := by
            simpa [hterminal] using hfresh
          simp only [Bool.false_eq_true, if_false, completeLive, hlive]
          cases hworker : workerMismatch row job with
          | true => rfl
          | false =>
              have hidentity : identityAgrees db job attempt = false := by
                simpa [hterminal, hlive, hworker] using hopen
              simp [hidentity, raiseWith, Except.map]

/-- A completion that neither quarantines nor commits reads only. -/
theorem complete_of_neither (hfresh : quarantines db job attempt nowMs = false)
    (hopen : commits db job attempt nowMs = false) :
    complete db job attempt nowMs = (readAnswer db job attempt, db) := by
  have hbody : completeBody db job attempt nowMs = _ := completeBody_of_neither hfresh hopen
  cases hanswer : readAnswer db job attempt with
  | ok status =>
      rw [hanswer] at hbody
      exact transaction_ok hbody
  | error exc =>
      rw [hanswer] at hbody
      exact transaction_error hbody

end Reading

/-! ## What a completion writes -/

/-- The attempt row a completion rewrites, given whether it quarantines or commits. -/
def rewriteTarget (stale committed : Bool) (attempt : EvaluationAttempt) (row : AttemptRow) :
    Bool :=
  (stale && quarantineTarget attempt row) || (committed && row.attemptId = attempt.attemptId)

def completedRow (db : Db) (stale : Bool) (attempt : EvaluationAttempt) (now : Datetime)
    (row : AttemptRow) : AttemptRow :=
  if stale then quarantine db attempt now row
  else committedRow attempt (attempt.finishedAt.getD now) row

theorem completedRow_attemptId (db : Db) (stale : Bool) (attempt : EvaluationAttempt)
    (now : Datetime) (row : AttemptRow) :
    (completedRow db stale attempt now row).attemptId = row.attemptId := by
  unfold completedRow
  split <;> rfl

/-- Evidence is checked against the artifacts only. -/
theorem completedRow_congr {db db' : Db} (h : db'.artifacts = db.artifacts) :
    completedRow db' = completedRow db := by
  funext stale attempt now row
  simp only [completedRow, quarantine, validArtifactDigest, h]

theorem rewriteTarget_attemptId {stale committed : Bool} {attempt : EvaluationAttempt}
    {row : AttemptRow} (h : rewriteTarget stale committed attempt row = true) :
    row.attemptId = attempt.attemptId := by
  simp only [rewriteTarget, quarantineTarget, Bool.or_eq_true, Bool.and_eq_true,
    decide_eq_true_eq] at h
  rcases h with ⟨_, ⟨hid, _⟩, _⟩ | ⟨_, hid⟩
  · exact hid
  · exact hid

/-- A row is rewritten by one of two completions of different attempts at most. -/
theorem rewriteTarget_of_ne {stale committed : Bool} {attempt other : EvaluationAttempt}
    {row : AttemptRow} (hne : attempt.attemptId ≠ other.attemptId)
    (hid : row.attemptId = attempt.attemptId) :
    rewriteTarget stale committed other row = false := by
  rw [Bool.eq_false_iff]
  exact fun hhit => hne (hid.symm.trans (rewriteTarget_attemptId hhit))

/-- The effect of a completion at a time that can be written down: at most one
attempt is rewritten, and if it is committed its job is finished and the run of
the handle recomputed. -/
structure Completes (db : Db) (job : Job) (attempt : EvaluationAttempt) (now : Datetime)
    (stale committed : Bool) (db' : Db) : Prop where
  jobs : db'.jobs = db.jobs.update (fun row => committed && row.jobId = job.jobId)
    (finishedRow attempt) (finishedRow_jobId attempt)
  attempts : db'.evaluationAttempts = db.evaluationAttempts.update
    (rewriteTarget stale committed attempt) (completedRow db stale attempt now)
    (completedRow_attemptId db stale attempt now)
  runs : ∀ runId, db'.auditRuns.find? runId = (db.auditRuns.find? runId).map fun run =>
    if committed = true ∧ runId = job.runId then settledRow (db'.runJobs job.runId) now run
    else run
  artifacts : db'.artifacts = db.artifacts

section Effect

variable {db db' : Db} {job : Job} {attempt : EvaluationAttempt} {nowMs : Int} {now : Datetime}

theorem completes_of_neither : Completes db job attempt now false false db where
  jobs := (Table.update_eq_self fun _ _ => rfl).symm
  attempts := (Table.update_eq_self fun _ _ => rfl).symm
  runs := by simp
  artifacts := rfl

/-- Late evidence is written to its own attempt, and no job and no run changes. -/
theorem completes_of_quarantines : Completes db job attempt now true false
    (quarantinedDb db attempt now) where
  jobs := (Table.update_eq_self fun _ _ => rfl).symm
  attempts := by
    have hrows : db.evaluationAttempts.update (quarantineTarget attempt)
        (quarantine db attempt now) (quarantine_attemptId db attempt now) =
          db.evaluationAttempts.update (rewriteTarget true false attempt)
            (completedRow db true attempt now) (completedRow_attemptId db true attempt now) := by
      apply Table.ext
      simp [Table.update, rewriteTarget, completedRow]
    exact hrows
  runs := by simp [quarantinedDb]
  artifacts := rfl

/-- The clock that closes the run is the only thing a commit takes from outside the submission
and the rows it reads. -/
theorem completes_of_commits (hclock : isoOfMs nowMs = .ok now)
    (hrun : updateRunState (committedDb db job attempt (attempt.finishedAt.getD now)) job.runId
      nowMs = .ok db') : Completes db job attempt now false true db' := by
  rw [updateRunState_settled hclock] at hrun
  obtain rfl := Except.ok.inj hrun
  refine ⟨?_, ?_, ?_, rfl⟩
  · have hrows : db.jobs.update (fun row => row.jobId = job.jobId) (finishedRow attempt)
        (finishedRow_jobId attempt) = db.jobs.update (fun row => true && row.jobId = job.jobId)
          (finishedRow attempt) (finishedRow_jobId attempt) := by
      simp only [Bool.true_and]
    exact hrows
  · have hrows : db.evaluationAttempts.update (fun row => row.attemptId = attempt.attemptId)
        (committedRow attempt (attempt.finishedAt.getD now))
        (committedRow_attemptId attempt (attempt.finishedAt.getD now)) =
          db.evaluationAttempts.update (rewriteTarget false true attempt)
            (completedRow db false attempt now) (completedRow_attemptId db false attempt now) := by
      apply Table.ext
      simp [Table.update, rewriteTarget, completedRow]
    exact hrows
  -- The commit leaves the runs alone, so only the settled row of each run counts.
  · intro runId
    rw [Db.updateRun, Table.find?_update]
    cases hfind : db.auditRuns.find? runId with
    | none =>
        have hnone : (committedDb db job attempt (attempt.finishedAt.getD now)).auditRuns.find?
            runId = none := hfind
        rw [hnone]
        rfl
    | some run =>
        have hsome : (committedDb db job attempt (attempt.finishedAt.getD now)).auditRuns.find?
            runId = some run := hfind
        have hid : run.runId = runId := Table.key_of_find? hfind
        rw [hsome]
        simp only [Option.map_some, hid, decide_eq_true_eq, true_and]
        rfl

theorem finishedAtOf_eq {finishedAt : Datetime} (hclock : isoOfMs nowMs = .ok now)
    (h : finishedAtOf attempt nowMs = .ok finishedAt) :
    finishedAt = attempt.finishedAt.getD now := by
  unfold finishedAtOf at h
  cases hown : attempt.finishedAt with
  | some finished =>
      rw [hown] at h
      exact (Except.ok.inj h).symm
  | none =>
      rw [hown, hclock] at h
      exact (Except.ok.inj h).symm

/-- A result the database accepts is recorded as the lease calls for. Evidence of a lost lease
goes into quarantine, that of a live one is committed, and in both cases nothing else is
written. -/
theorem complete_completes (job : Job) (hinv : QueueInv db) (hclock : isoOfMs nowMs = .ok now)
    (h : attempt.Gradable db nowMs) :
    Completes db job attempt now (quarantines db job attempt nowMs) (commits db job attempt nowMs)
        (complete db job attempt nowMs).2 ∧
      (quarantines db job attempt nowMs = true →
        (complete db job attempt nowMs).1 = .ok .stale) ∧
      (commits db job attempt nowMs = true →
        (complete db job attempt nowMs).1 = .ok .committed) := by
  rcases completeBody_cases db job attempt nowMs with
    ⟨hstale, hnot, _⟩ | ⟨hnot, hcommits, _⟩ | ⟨hfresh, hnot, _⟩
  · rcases complete_of_quarantines hstale with ⟨later, hquarantinable, heq⟩ | ⟨hrefused, _⟩
    · obtain rfl : now = later :=
        Except.ok.inj (hclock.symm.trans hquarantinable.clock)
      rw [heq, hstale, hnot]
      exact ⟨completes_of_quarantines, fun _ => rfl, nofun⟩
    · obtain ⟨later, hquarantinable⟩ := h.toRecordable.quarantinable hinv
      exact absurd hquarantinable (hrefused later)
  · rcases complete_of_commits hcommits with
      ⟨finishedAt, db', hcommittable, hrun, heq⟩ | ⟨hrefused, _⟩
    · obtain rfl := finishedAtOf_eq hclock hcommittable.clock
      rw [heq, hnot, hcommits]
      exact ⟨completes_of_commits hclock hrun, nofun, fun _ => rfl⟩
    · obtain ⟨row, stored, hguard⟩ := commits_iff.mp hcommits
      obtain ⟨finishedAt, hcommittable⟩ := h.committable hinv hguard
      exact absurd hcommittable (hrefused finishedAt)
  · rw [complete_of_neither hfresh hnot, hfresh, hnot]
    exact ⟨completes_of_neither, nofun, nofun⟩

end Effect

/-! ## Two completions -/

namespace Completes

variable {db db' : Db} {job : Job} {attempt : EvaluationAttempt} {now : Datetime}
  {stale committed : Bool}

/-- The rows of the other jobs stay. -/
theorem find?_job (h : Completes db job attempt now stale committed db') {jobId : String}
    (hne : jobId ≠ job.jobId) : db'.jobs.find? jobId = db.jobs.find? jobId := by
  rw [h.jobs, Table.find?_update]
  cases hfind : db.jobs.find? jobId with
  | none => rfl
  | some row =>
      have hid : row.jobId ≠ job.jobId := (Table.key_of_find? hfind).trans_ne hne
      simp [hid]

/-- The rows of the other attempts stay. -/
theorem find?_attempt (h : Completes db job attempt now stale committed db') {attemptId : String}
    (hne : attemptId ≠ attempt.attemptId) :
    db'.evaluationAttempts.find? attemptId = db.evaluationAttempts.find? attemptId := by
  rw [h.attempts, Table.find?_update]
  cases hfind : db.evaluationAttempts.find? attemptId with
  | none => rfl
  | some row =>
      have hid : row.attemptId ≠ attempt.attemptId := (Table.key_of_find? hfind).trans_ne hne
      have htarget : rewriteTarget stale committed attempt row = false := by
        rw [Bool.eq_false_iff]
        exact fun htarget => hid (rewriteTarget_attemptId htarget)
      simp [htarget]

/-- The jobs of a run that is not recomputed stay. -/
theorem runJobs (h : Completes db job attempt now stale committed db')
    (hhandle : db.HandleOfRun job) {runId : String}
    (hne : ¬ (committed = true ∧ runId = job.runId)) : db'.runJobs runId = db.runJobs runId := by
  obtain ⟨row, hrow, hrun⟩ := hhandle
  rw [Db.runJobs, h.jobs, Db.runJobs]
  apply Table.select_update_of_not
  intro other hother htarget
  rw [Bool.and_eq_true, decide_eq_true_eq] at htarget
  obtain rfl := Table.eq_of_key_eq hother (Table.mem_of_find? hrow)
    (htarget.2.trans (Table.key_of_find? hrow).symm)
  have hother : ¬ other.runId = runId := fun hsame => hne ⟨htarget.1, hsame.symm.trans hrun⟩
  exact ⟨decide_eq_false hother, decide_eq_false hother⟩

theorem handleOfRun (h : Completes db job attempt now stale committed db') {handle : Job}
    (hne : handle.jobId ≠ job.jobId) (hhandle : db.HandleOfRun handle) :
    db'.HandleOfRun handle := by
  obtain ⟨row, hrow, hrun⟩ := hhandle
  exact ⟨row, (h.find?_job hne).trans hrow, hrun⟩

end Completes

/-- The two databases hold the same jobs and attempts, and the same runs but for
the finish time of the `shared` ones. -/
structure SameQueue (shared : String → Prop) (db db' : Db) : Prop where
  jobs : db.jobs = db'.jobs
  attempts : db.evaluationAttempts = db'.evaluationAttempts
  runs : ∀ runId, (db.auditRuns.find? runId).map AuditRunRow.undated =
    (db'.auditRuns.find? runId).map AuditRunRow.undated
  dates : ∀ runId, ¬ shared runId → db.auditRuns.find? runId = db'.auditRuns.find? runId

/-- The run of the handle has a job that is not finished. -/
def Db.Open (db : Db) (handle : Job) : Prop :=
  ∃ row, db.jobs.find? handle.jobId = some row ∧ row.state.isFinished = false

section TwoOrders

variable {db first firstThen second secondThen : Db} {job other : Job}
  {attempt otherAttempt : EvaluationAttempt} {now later : Datetime}
  {stale committed otherStale otherCommitted : Bool}
  (hfirst : Completes db job attempt now stale committed first)
  (hfirstThen : Completes first other otherAttempt later otherStale otherCommitted firstThen)
  (hsecond : Completes db other otherAttempt later otherStale otherCommitted second)
  (hsecondThen : Completes second job attempt now stale committed secondThen)

include hfirst hfirstThen hsecond hsecondThen

/-- Two completions finish two different rows of `jobs`. -/
theorem jobs_eq_of_completes (hjob : job.jobId ≠ other.jobId) :
    firstThen.jobs = secondThen.jobs := by
  rw [hfirstThen.jobs, hfirst.jobs, hsecondThen.jobs, hsecond.jobs]
  apply Table.update_comm
  · intro row _ htarget
    rw [Bool.and_eq_true, decide_eq_true_eq] at htarget
    simp [finishedRow, htarget.2, hjob]
  · intro row _ htarget
    rw [Bool.and_eq_true, decide_eq_true_eq] at htarget
    simp [finishedRow, htarget.2, hjob.symm]

/-- They rewrite two different rows of `evaluation_attempts`, and what is written depends on the
artifacts only, which stay. -/
theorem attempts_eq_of_completes (hattempt : attempt.attemptId ≠ otherAttempt.attemptId) :
    firstThen.evaluationAttempts = secondThen.evaluationAttempts := by
  rw [hfirstThen.attempts, hfirst.attempts, hsecondThen.attempts, hsecond.attempts]
  simp only [completedRow_congr hfirst.artifacts, completedRow_congr hsecond.artifacts]
  apply Table.update_comm
  · intro row _ htarget
    have hid := rewriteTarget_attemptId htarget
    have hrewritten := (completedRow_attemptId db stale attempt now row).trans hid
    exact ⟨rewriteTarget_of_ne hattempt hid, rewriteTarget_of_ne hattempt hrewritten⟩
  · intro row _ htarget
    have hid := rewriteTarget_attemptId htarget
    have hrewritten := (completedRow_attemptId db otherStale otherAttempt later row).trans hid
    exact ⟨rewriteTarget_of_ne hattempt.symm hid, rewriteTarget_of_ne hattempt.symm hrewritten⟩

/-- A run that at most one of them settles is settled from the same jobs in either order. -/
theorem run_eq_of_completes (hjob : job.jobId ≠ other.jobId) (hhandle : db.HandleOfRun job)
    (hother : db.HandleOfRun other) {runId : String}
    (hnot : ¬ ((committed = true ∧ runId = job.runId) ∧
      (otherCommitted = true ∧ runId = other.runId))) :
    firstThen.auditRuns.find? runId = secondThen.auditRuns.find? runId := by
  have hjobs := jobs_eq_of_completes hfirst hfirstThen hsecond hsecondThen hjob
  have hrunJobs : ∀ runId, firstThen.runJobs runId = secondThen.runJobs runId := by
    intro runId
    rw [Db.runJobs, hjobs, Db.runJobs]
  have hfirstHandle : first.HandleOfRun other := hfirst.handleOfRun hjob.symm hother
  have hsecondHandle : second.HandleOfRun job := hsecond.handleOfRun hjob hhandle
  rw [hfirstThen.runs, hfirst.runs, hsecondThen.runs, hsecond.runs, Option.map_map,
    Option.map_map]
  congr 1
  funext run
  simp only [Function.comp_apply]
  by_cases hown : committed = true ∧ runId = job.runId
  · have hforeign : ¬ (otherCommitted = true ∧ runId = other.runId) :=
      fun h => hnot ⟨hown, h⟩
    have hkept : first.runJobs job.runId = secondThen.runJobs job.runId := by
      rw [← hrunJobs, hfirstThen.runJobs hfirstHandle (hown.2 ▸ hforeign)]
    rw [if_pos hown, if_neg hforeign, if_pos hown, if_neg hforeign, hkept]
  · rw [if_neg hown, if_neg hown]
    by_cases hforeign : otherCommitted = true ∧ runId = other.runId
    · have hkept : firstThen.runJobs other.runId = second.runJobs other.runId := by
        rw [hrunJobs, hsecondThen.runJobs hsecondHandle (hforeign.2 ▸ hown)]
      rw [if_pos hforeign, if_pos hforeign, hkept]
    · rw [if_neg hforeign, if_neg hforeign]

end TwoOrders

/-- Two completions of different jobs and attempts lead to one queue, in either
order, if each finds the other's job still open when both commit. -/
theorem sameQueue_of_completes {db first firstThen second secondThen : Db} {job other : Job}
    {attempt otherAttempt : EvaluationAttempt} {now later : Datetime}
    {stale committed otherStale otherCommitted : Bool} (hjob : job.jobId ≠ other.jobId)
    (hattempt : attempt.attemptId ≠ otherAttempt.attemptId)
    (hhandle : db.HandleOfRun job) (hother : db.HandleOfRun other)
    (hopen : committed = true → db.Open job) (hotherOpen : otherCommitted = true → db.Open other)
    (hfirst : Completes db job attempt now stale committed first)
    (hfirstThen : Completes first other otherAttempt later otherStale otherCommitted firstThen)
    (hsecond : Completes db other otherAttempt later otherStale otherCommitted second)
    (hsecondThen : Completes second job attempt now stale committed secondThen) :
    SameQueue (fun runId => runId = job.runId ∧ runId = other.runId) firstThen secondThen := by
  have hjobs := jobs_eq_of_completes hfirst hfirstThen hsecond hsecondThen hjob
  have hattempts := attempts_eq_of_completes hfirst hfirstThen hsecond hsecondThen hattempt
  have hruns : ∀ runId, ¬ ((committed = true ∧ runId = job.runId) ∧
      (otherCommitted = true ∧ runId = other.runId)) →
      firstThen.auditRuns.find? runId = secondThen.auditRuns.find? runId := fun _ hnot =>
    run_eq_of_completes hfirst hfirstThen hsecond hsecondThen hjob hhandle hother hnot
  have hrunJobs : ∀ runId, firstThen.runJobs runId = secondThen.runJobs runId := by
    intro runId
    rw [Db.runJobs, hjobs, Db.runJobs]
  have hfirstHandle : first.HandleOfRun other := hfirst.handleOfRun hjob.symm hother
  have hsecondHandle : second.HandleOfRun job := hsecond.handleOfRun hjob hhandle
  refine ⟨hjobs, hattempts, ?_, fun runId hshared => hruns runId fun h => hshared ⟨h.1.2, h.2.2⟩⟩
  intro runId
  by_cases hboth : (committed = true ∧ runId = job.runId) ∧
      (otherCommitted = true ∧ runId = other.runId)
  · -- Each recomputes the shared run while the other's job is still open, so
    -- only the second one can close it, with all jobs in front of it.
    obtain ⟨⟨hcommitted, rfl⟩, hotherCommitted, hrunId⟩ := hboth
    obtain ⟨row, hrow, hunfinished⟩ := hopen hcommitted
    obtain ⟨otherRow, hotherRow, hotherUnfinished⟩ := hotherOpen hotherCommitted
    have hleft : otherRow ∈ first.runJobs job.runId := by
      obtain ⟨row', hrow', hrun⟩ := hfirstHandle
      have hkept := (hfirst.find?_job hjob.symm).trans hotherRow
      obtain rfl := Option.some.inj (hrow'.symm.trans hkept)
      exact mem_runJobs.mpr ⟨Table.mem_of_find? hrow', hrun.trans hrunId.symm⟩
    have hright : row ∈ second.runJobs other.runId := by
      obtain ⟨row', hrow', hrun⟩ := hsecondHandle
      have hkept := (hsecond.find?_job hjob).trans hrow
      obtain rfl := Option.some.inj (hrow'.symm.trans hkept)
      exact mem_runJobs.mpr ⟨Table.mem_of_find? hrow', hrun.trans hrunId⟩
    rw [hfirstThen.runs, hfirst.runs, hsecondThen.runs, hsecond.runs]
    simp only [Option.map_map]
    congr 1
    funext run
    simp only [Function.comp_apply]
    rw [if_pos ⟨hotherCommitted, hrunId⟩, if_pos ⟨hcommitted, trivial⟩,
      if_pos ⟨hcommitted, trivial⟩,
      if_pos ⟨hotherCommitted, hrunId⟩, settledRow_of_unfinished hleft hotherUnfinished,
      settledRow_of_unfinished hright hunfinished, hrunJobs, ← hrunId]
    exact settledRow_undated _ _ _ _
  · rw [hruns runId hboth]

/-- The attempt of an issued handle belongs to the handle's job. -/
theorem attemptId_ne_of_issued {db : Db} {job other : Job}
    {attempt otherAttempt : EvaluationAttempt}
    (hjob : job.jobId ≠ other.jobId) (hissued : db.Issued job) (hotherIssued : db.Issued other)
    (hsubmits : Submits job attempt) (hotherSubmits : Submits other otherAttempt) :
    attempt.attemptId ≠ otherAttempt.attemptId := by
  intro hid
  obtain ⟨l, hl, row, hrow, hrowId, _⟩ := hissued
  obtain ⟨l', hl', row', hrow', hrowId', _⟩ := hotherIssued
  rw [(ledger_eq_some_iff.mp hl).2] at hrow
  rw [(ledger_eq_some_iff.mp hl').2] at hrow'
  obtain ⟨hmem, hrowJob⟩ := mem_attemptsOf.mp hrow
  obtain ⟨hmem', hrowJob'⟩ := mem_attemptsOf.mp hrow'
  have hfirst : attempt.attemptId = row.attemptId :=
    Option.some.inj (hsubmits.attemptId.symm.trans hrowId)
  have hsecond : otherAttempt.attemptId = row'.attemptId :=
    Option.some.inj (hotherSubmits.attemptId.symm.trans hrowId')
  have hsame : row.attemptId = row'.attemptId := hfirst.symm.trans (hid.trans hsecond)
  obtain rfl := Table.eq_of_key_eq hmem hmem' hsame
  exact hjob (hrowJob.symm.trans hrowJob')

/-- The handle was issued for its job, and the result is one for the attempt it
was granted that the database accepts at this time. -/
structure Db.Accepts (db : Db) (handle : Job) (attempt : EvaluationAttempt) (nowMs : Int) :
    Prop where
  issued : db.Issued handle
  ofRun : db.HandleOfRun handle
  submits : Submits handle attempt
  gradable : attempt.Gradable db nowMs

theorem EvaluationAttempt.Gradable.of_artifacts {db db' : Db} {attempt : EvaluationAttempt}
    {nowMs : Int} (h : attempt.Gradable db nowMs) (hartifacts : db'.artifacts = db.artifacts) :
    attempt.Gradable db' nowMs where
  toRecordable := h.toRecordable
  status := h.status
  stdoutHash := by
    rw [Db.HasArtifact, hartifacts]
    exact h.stdoutHash
  stderrHash := by
    rw [Db.HasArtifact, hartifacts]
    exact h.stderrHash
  reportDigest := by
    rw [Db.HasArtifact, hartifacts]
    exact h.reportDigest

/-- A completion neither decides nor answers differently after one of another
job. -/
theorem complete_after {db db' : Db} {job other : Job} {attempt otherAttempt : EvaluationAttempt}
    {nowMs : Int} {now later : Datetime} {otherStale otherCommitted : Bool} (hinv : QueueInv db)
    (hinv' : QueueInv db') (hjob : job.jobId ≠ other.jobId)
    (hattempt : attempt.attemptId ≠ otherAttempt.attemptId) (hclock : isoOfMs nowMs = .ok now)
    (hgradable : attempt.Gradable db nowMs)
    (hother : Completes db other otherAttempt later otherStale otherCommitted db') :
    (complete db' job attempt nowMs).1 = (complete db job attempt nowMs).1 ∧
      Completes db' job attempt now (quarantines db job attempt nowMs)
        (commits db job attempt nowMs) (complete db' job attempt nowMs).2 := by
  have hjobRow := hother.find?_job hjob
  have hattemptRow := hother.find?_attempt hattempt
  have hstale : quarantines db' job attempt nowMs = quarantines db job attempt nowMs :=
    quarantines_congr hjobRow
  have hcommitted : commits db' job attempt nowMs = commits db job attempt nowMs :=
    commits_congr hjobRow hattemptRow
  obtain ⟨_, hbefore, hbeforeCommitted⟩ := complete_completes job hinv hclock hgradable
  obtain ⟨heffect, hafter, hafterCommitted⟩ :=
    complete_completes job hinv' hclock (hgradable.of_artifacts hother.artifacts)
  rw [hstale] at heffect hafter
  rw [hcommitted] at heffect hafterCommitted
  refine ⟨?_, heffect⟩
  cases hq : quarantines db job attempt nowMs with
  | true => rw [hafter hq, hbefore hq]
  | false =>
      cases hc : commits db job attempt nowMs with
      | true => rw [hafterCommitted hc, hbeforeCommitted hc]
      | false =>
          rw [complete_of_neither (hstale.trans hq) (hcommitted.trans hc),
            complete_of_neither hq hc, readAnswer_congr hjobRow hattemptRow]

theorem open_of_commits {db : Db} {job : Job} {attempt : EvaluationAttempt} {nowMs : Int}
    (h : commits db job attempt nowMs = true) : db.Open job := by
  obtain ⟨row, stored, hguard⟩ := commits_iff.mp h
  exact ⟨row, hguard.row_eq, unfinished_of_not_terminal hguard.not_terminal⟩

/-- In a reachable queue, completions of different jobs at times that can be
written down give the same answers and the same queue in either order, but for
the finish time of a run they share. -/
theorem completions_commute {db : Db} (h : db.Reachable) {job other : Job}
    {attempt otherAttempt : EvaluationAttempt} {nowMs laterMs : Int}
    (hjob : job.jobId ≠ other.jobId) (haccepts : db.Accepts job attempt nowMs)
    (hotherAccepts : db.Accepts other otherAttempt laterMs) :
    (complete (complete db other otherAttempt laterMs).2 job attempt nowMs).1 =
        (complete db job attempt nowMs).1 ∧
      (complete (complete db job attempt nowMs).2 other otherAttempt laterMs).1 =
        (complete db other otherAttempt laterMs).1 ∧
      SameQueue (fun runId => runId = job.runId ∧ runId = other.runId)
        (complete (complete db job attempt nowMs).2 other otherAttempt laterMs).2
        (complete (complete db other otherAttempt laterMs).2 job attempt nowMs).2 := by
  have hinv := h.queueInv
  have hattempt := attemptId_ne_of_issued hjob haccepts.issued hotherAccepts.issued
    haccepts.submits hotherAccepts.submits
  obtain ⟨now, hnow⟩ := Option.isSome_iff_exists.mp haccepts.gradable.clock
  obtain ⟨later, hlater⟩ := Option.isSome_iff_exists.mp hotherAccepts.gradable.clock
  have hclock : isoOfMs nowMs = .ok now := by rw [isoOfMs, hnow]
  have hotherClock : isoOfMs laterMs = .ok later := by rw [isoOfMs, hlater]
  have hfirst := (complete_completes job hinv hclock haccepts.gradable).1
  have hsecond := (complete_completes other hinv hotherClock hotherAccepts.gradable).1
  have hfirstInv : QueueInv (complete db job attempt nowMs).2 :=
    call_queueInv hinv (.complete job attempt nowMs)
  have hsecondInv : QueueInv (complete db other otherAttempt laterMs).2 :=
    call_queueInv hinv (.complete other otherAttempt laterMs)
  obtain ⟨hanswer, hsecondThen⟩ := complete_after hinv hsecondInv hjob hattempt hclock
    haccepts.gradable hsecond
  obtain ⟨hotherAnswer, hfirstThen⟩ := complete_after hinv hfirstInv hjob.symm hattempt.symm
    hotherClock hotherAccepts.gradable hfirst
  exact ⟨hanswer, hotherAnswer, sameQueue_of_completes hjob hattempt haccepts.ofRun
    hotherAccepts.ofRun open_of_commits open_of_commits hfirst hfirstThen hsecond hsecondThen⟩

/-- A lease beyond every date. -/
def endlessLeaseMs : Int := 2000000000000000000

/-- Both jobs of a run are claimed for longer than there are dates. -/
def pairLeased : Db :=
  Transition.run Db.call pairDb
    [.claim "worker" 0 none endlessLeaseMs ⟨"attempt", "token", attempt_ne⟩,
      .claim "worker" 0 none endlessLeaseMs ⟨"other-attempt", "other-token", otherAttempt_ne⟩]

def pairHandle : Job :=
  grantedJob (plannedJob "job") "worker" endlessLeaseMs ⟨"attempt", "token", attempt_ne⟩

def pairOther : Job :=
  grantedJob { plannedJob "other" with repetition := 1 } "worker" endlessLeaseMs
    ⟨"other-attempt", "other-token", otherAttempt_ne⟩

/-- An accepting result that brings its own finish time. -/
def datedAttempt (attemptId jobId : String) : EvaluationAttempt :=
  { acceptingAttempt attemptId jobId 1 with
    finishedAt := some (acceptingAttempt attemptId jobId 1).startedAt }

/-- The attempt refers to no artifact and brings its own finish time, so any database accepts
it. -/
theorem datedAttempt_gradable (db : Db) (attemptId jobId : String) {nowMs : Int}
    (hclock : (Datetime.fromTimestampMs? nowMs).isSome = true) :
    (datedAttempt attemptId jobId).Gradable db nowMs where
  clock := hclock
  exitCode := by
    intro n hn
    obtain rfl := Option.some.inj hn
    decide
  testsPassed := by
    intro n hn
    obtain rfl := Option.some.inj hn
    decide
  testsFailed := by
    intro n hn
    obtain rfl := Option.some.inj hn
    decide
  resources := rfl
  spellable := rfl
  status := Or.inl ⟨rfl, Or.inl rfl⟩
  stdoutHash := nofun
  stderrHash := nofun
  reportDigest := nofun

theorem pairLeased_reachable : pairLeased.Reachable := by
  refine Db.Reachable.run (.fresh ⟨?_, rfl⟩) _
  intro job hjob
  rcases List.mem_cons.mp hjob with rfl | hrest
  · exact ⟨rfl, rfl, rfl, rfl, rfl, rfl⟩
  · obtain rfl := List.mem_singleton.mp hrest
    exact ⟨rfl, rfl, rfl, rfl, rfl, rfl⟩

theorem pairHandle_accepts {nowMs : Int}
    (hclock : (Datetime.fromTimestampMs? nowMs).isSome = true) :
    pairLeased.Accepts pairHandle (datedAttempt "attempt" "job") nowMs where
  issued := ⟨⟨pairHandle, pairLeased.attemptsOf "job"⟩, rfl, _, List.mem_singleton.mpr rfl, rfl,
    rfl⟩
  ofRun := ⟨pairHandle, rfl, rfl⟩
  submits := ⟨rfl, rfl, rfl⟩
  gradable := datedAttempt_gradable _ _ _ hclock

theorem pairOther_accepts {nowMs : Int}
    (hclock : (Datetime.fromTimestampMs? nowMs).isSome = true) :
    pairLeased.Accepts pairOther (datedAttempt "other-attempt" "other") nowMs where
  issued := ⟨⟨pairOther, pairLeased.attemptsOf "other"⟩, rfl, _, List.mem_singleton.mpr rfl, rfl,
    rfl⟩
  ofRun := ⟨pairOther, rfl, rfl⟩
  submits := ⟨rfl, rfl, rfl⟩
  gradable := datedAttempt_gradable _ _ _ hclock

/-- Both jobs of a run are out; whichever completes second closes the run. -/
theorem completions_commute_pair :
    (complete (complete pairLeased pairOther (datedAttempt "other-attempt" "other") 2000).2
        pairHandle (datedAttempt "attempt" "job") 1000).1 =
        (complete pairLeased pairHandle (datedAttempt "attempt" "job") 1000).1 ∧
      (complete (complete pairLeased pairHandle (datedAttempt "attempt" "job") 1000).2
        pairOther (datedAttempt "other-attempt" "other") 2000).1 =
        (complete pairLeased pairOther (datedAttempt "other-attempt" "other") 2000).1 ∧
      SameQueue (fun runId => runId = pairHandle.runId ∧ runId = pairOther.runId)
        (complete (complete pairLeased pairHandle (datedAttempt "attempt" "job") 1000).2
          pairOther (datedAttempt "other-attempt" "other") 2000).2
        (complete (complete pairLeased pairOther (datedAttempt "other-attempt" "other") 2000).2
          pairHandle (datedAttempt "attempt" "job") 1000).2 :=
  completions_commute pairLeased_reachable (by decide) (pairHandle_accepts rfl)
    (pairOther_accepts rfl)

/-- The clock is read only by the completion that closes the run: a completion
at a time that is no date goes through first, and raises second. -/
theorem undated_completion_order :
    pairLeased.Accepts pairHandle (datedAttempt "attempt" "job") 1000 ∧
      pairLeased.Accepts pairOther (datedAttempt "other-attempt" "other") 1000 ∧
      (complete pairLeased pairHandle (datedAttempt "attempt" "job") 1000000000000000000).1 =
        .ok .committed ∧
      (complete (complete pairLeased pairOther (datedAttempt "other-attempt" "other") 1000).2
        pairHandle (datedAttempt "attempt" "job") 1000000000000000000).1 = .error .valueError :=
  ⟨pairHandle_accepts rfl, pairOther_accepts rfl, rfl, rfl⟩

end VerifierCI
