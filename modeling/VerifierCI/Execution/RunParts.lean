import VerifierCI.Execution.Cancellation
import VerifierCI.Execution.Draining
import VerifierCI.Relational.Restriction

/-! # The part of a run

The queue serves many audit runs from the same tables. The rows of one run are
a part of them, and a statement on the tables is a statement on the part, if it
is about the run at all.
-/

namespace VerifierCI

open Python Relational Transition

/-! ## The part of a run -/

def Db.isOfRun (db : Db) (runId : String) (row : AttemptRow) : Bool :=
  (db.jobs.find? row.jobId).any fun job => job.runId = runId

/-- The rows that belong to one run. Artifacts and manifests are shared. -/
def Db.ofRun (db : Db) (runId : String) : Db where
  artifacts := db.artifacts
  auditManifests := db.auditManifests
  auditRuns := db.auditRuns.restrict fun run => run.runId = runId
  jobs := db.jobs.restrict fun job => job.runId = runId
  evaluationAttempts := db.evaluationAttempts.restrict (db.isOfRun runId)

section Reading

variable {db : Db} {runId : String}

theorem ofRun_auditRun : (db.ofRun runId).auditRuns.find? runId = db.auditRuns.find? runId := by
  rw [Db.ofRun, Table.find?_restrict]
  cases hrun : db.auditRuns.find? runId with
  | none => rfl
  | some run => simp [Option.filter, Table.key_of_find? hrun]

theorem ofRun_job {jobId : String} {row : Job} (hrow : db.jobs.find? jobId = some row)
    (hrun : row.runId = runId) : (db.ofRun runId).jobs.find? jobId = some row := by
  rw [Db.ofRun, Table.find?_restrict, hrow]
  simp [hrun]

theorem isOfRun_iff {row : AttemptRow} {job : Job} (hjob : db.jobs.find? row.jobId = some job) :
    db.isOfRun runId row = true ↔ job.runId = runId := by
  simp [Db.isOfRun, hjob]

theorem ofRun_attempt {attemptId : String} {row : AttemptRow}
    (hrow : db.evaluationAttempts.find? attemptId = some row) (hrun : db.isOfRun runId row = true) :
    (db.ofRun runId).evaluationAttempts.find? attemptId = some row := by
  rw [Db.ofRun, Table.find?_restrict, hrow]
  simp [hrun]

theorem ofRun_runJobs : (db.ofRun runId).runJobs runId = db.runJobs runId := by
  apply Table.select_restrict
  intro job _ hrun
  exact hrun

theorem ofRun_cancelRequested :
    cancelRequested (db.ofRun runId) runId = cancelRequested db runId := by
  simp only [cancelRequested, ofRun_auditRun]

theorem ofRun_reapedState {row : Job} (hrun : row.runId = runId) (maxAttempts : Option Int) :
    reapedState (db.ofRun runId) row maxAttempts = reapedState db row maxAttempts := by
  subst hrun
  simp only [reapedState, ofRun_cancelRequested, manifestMaxAttempts, ofRun_auditRun]
  rfl

/-- The order of the queue is by job, whatever runs it serves. -/
theorem ofRun_nextPending {only : Option String} {row : Job}
    (hnext : nextPending db only = some row)
    (hrun : row.runId = runId) : nextPending (db.ofRun runId) (some runId) = some row := by
  obtain ⟨hmem, hwaits⟩ := nextPending_waits hnext
  have hrow : row ∈ (db.ofRun runId).jobs := Table.mem_restrict.mpr ⟨hmem, by simp [hrun]⟩
  have hwaiting : row.Waits (some runId) := ⟨hwaits.pending, by simp [hrun]⟩
  cases hfound : nextPending (db.ofRun runId) (some runId) with
  | none => exact absurd hwaiting (waits_of_nextPending_none hfound hrow)
  | some other =>
      obtain ⟨hotherMem, hotherWaits⟩ := nextPending_waits hfound
      obtain ⟨hotherIn, hotherRun⟩ := Table.mem_restrict.mp hotherMem
      have hotherOnly : other.Waits only := by
        refine ⟨hotherWaits.pending, fun asked hasked => ?_⟩
        rw [hwaits.run asked hasked, hrun, hotherWaits.run runId rfl]
      have hle := nextPending_least hfound hrow hwaiting
      have hge := nextPending_least hnext hotherIn hotherOnly
      exact congrArg some (Table.eq_of_key_eq hotherIn hmem (le_antisymm hle hge))

end Reading

/-! ## Statements -/

section Statements

variable {db db' : Db} {runId : String}

/-- Which attempts belong to a run is a matter of the jobs. -/
theorem isOfRun_of_jobs (h : db'.jobs = db.jobs) : db'.isOfRun runId = db.isOfRun runId := by
  funext attempt
  rw [Db.isOfRun, Db.isOfRun, h]

/-- A job never changes its run, so its attempts do not either. -/
theorem isOfRun_updateJobs {p : Job → Bool} {f : Job → Job}
    {hkey : ∀ row, (f row).jobId = row.jobId}
    (hrun : ∀ row, (f row).runId = row.runId) :
    (db.updateJobs p f hkey).isOfRun runId = db.isOfRun runId := by
  funext attempt
  rw [Db.isOfRun, Db.isOfRun, updateJobs_jobs, Table.find?_update]
  cases db.jobs.find? attempt.jobId with
  | none => rfl
  | some job =>
      simp only [Option.map_some, Option.any_some]
      split
      · rw [hrun]
      · rfl

/-- Rows that keep their run can be rewritten before or after the part is taken. -/
theorem ofRun_updateJobs {p : Job → Bool} {f : Job → Job} {hkey : ∀ row, (f row).jobId = row.jobId}
    (hrun : ∀ row, (f row).runId = row.runId) :
    (db.updateJobs p f hkey).ofRun runId = (db.ofRun runId).updateJobs p f hkey := by
  have hjobs : (db.jobs.update p f hkey).restrict (fun job => job.runId = runId) =
      (db.jobs.restrict fun job => job.runId = runId).update p f hkey := by
    apply Table.restrict_update
    intro row _ _
    rw [hrun]
  simp only [Db.ofRun, isOfRun_updateJobs hrun, updateJobs_evaluationAttempts, updateJobs_jobs,
    hjobs]
  rfl

/-- A job is still found after an update, in the same run. -/
theorem find?_updateJobs {p : Job → Bool} {f : Job → Job} {hkey : ∀ row, (f row).jobId = row.jobId}
    {jobId : String} {row : Job} (hrow : db.jobs.find? jobId = some row)
    (hrun : ∀ row, (f row).runId = row.runId) :
    ∃ row', (db.updateJobs p f hkey).jobs.find? jobId = some row' ∧ row'.runId = row.runId := by
  rw [updateJobs_jobs, Table.find?_update, hrow]
  refine ⟨_, rfl, ?_⟩
  dsimp only
  split
  · exact hrun row
  · rfl

/-- An update of jobs of other runs. -/
theorem ofRun_updateJobs_of_ne {p : Job → Bool} {f : Job → Job}
    {hkey : ∀ row, (f row).jobId = row.jobId} (hrun : ∀ row, (f row).runId = row.runId)
    (hother : ∀ row ∈ db.jobs, p row = true → row.runId ≠ runId) :
    (db.updateJobs p f hkey).ofRun runId = db.ofRun runId := by
  rw [ofRun_updateJobs hrun]
  have hjobs : (db.ofRun runId).jobs.update p f hkey = (db.ofRun runId).jobs := by
    apply Table.update_eq_self
    intro row hrow
    obtain ⟨hmem, hof⟩ := Table.mem_restrict.mp hrow
    cases hp : p row with
    | false => rfl
    | true => exact absurd (of_decide_eq_true hof) (hother row hmem hp)
  simp only [Db.updateJobs, hjobs]

/-- The database with its attempts updated, without the checks. -/
def Db.withAttempts (db : Db) (p : AttemptRow → Bool) (f : AttemptRow → AttemptRow)
    (hkey : ∀ row, (f row).attemptId = row.attemptId) : Db :=
  { db with evaluationAttempts := db.evaluationAttempts.update p f hkey }

theorem ofRun_withAttempts {p : AttemptRow → Bool} {f : AttemptRow → AttemptRow}
    {hkey : ∀ row, (f row).attemptId = row.attemptId} (hjob : ∀ row, (f row).jobId = row.jobId) :
    (db.withAttempts p f hkey).ofRun runId = (db.ofRun runId).withAttempts p f hkey := by
  have hattempts : (db.evaluationAttempts.update p f hkey).restrict (db.isOfRun runId) =
      (db.evaluationAttempts.restrict (db.isOfRun runId)).update p f hkey := by
    apply Table.restrict_update
    intro row _ _
    rw [Db.isOfRun, Db.isOfRun, hjob]
  have hsame : (db.withAttempts p f hkey).isOfRun runId = db.isOfRun runId := isOfRun_of_jobs rfl
  rw [Db.ofRun, Db.ofRun, hsame]
  simp only [Db.withAttempts, hattempts]

/-- An update of attempts of other runs. -/
theorem ofRun_withAttempts_of_ne {p : AttemptRow → Bool} {f : AttemptRow → AttemptRow}
    {hkey : ∀ row, (f row).attemptId = row.attemptId} (hjob : ∀ row, (f row).jobId = row.jobId)
    (hother : ∀ row ∈ db.evaluationAttempts, p row = true → db.isOfRun runId row = false) :
    (db.withAttempts p f hkey).ofRun runId = db.ofRun runId := by
  rw [ofRun_withAttempts hjob]
  have hattempts : (db.ofRun runId).evaluationAttempts.update p f hkey =
      (db.ofRun runId).evaluationAttempts := by
    apply Table.update_eq_self
    intro row hrow
    obtain ⟨hmem, hof⟩ := Table.mem_restrict.mp hrow
    cases hp : p row with
    | false => rfl
    | true =>
        rw [hother row hmem hp] at hof
        cases hof
  simp only [Db.withAttempts, hattempts]

/-- The part has fewer rows to check. -/
theorem UpdateAllowed.ofRun {p : AttemptRow → Bool} {f : AttemptRow → AttemptRow}
    {hkey : ∀ row, (f row).attemptId = row.attemptId} (h : UpdateAllowed db p f hkey)
    (hjob : ∀ row, (f row).jobId = row.jobId) : UpdateAllowed (db.ofRun runId) p f hkey where
  rows := by
    intro row hrow hp
    exact h.rows row (Table.mem_restrict.mp hrow).1 hp
  authority := by
    have hattempts := congrArg Db.evaluationAttempts
      (@ofRun_withAttempts db runId p f hkey hjob)
    rw [show (db.ofRun runId).evaluationAttempts.update p f hkey =
      (db.evaluationAttempts.update p f hkey).restrict (db.isOfRun runId) from hattempts.symm]
    refine h.authority.sublist (List.Sublist.map _ ?_)
    exact List.filter_sublist.filter _

/-- The part accepts the updates the database accepts. -/
theorem ofRun_updateAttempts {p : AttemptRow → Bool} {f : AttemptRow → AttemptRow}
    {hkey : ∀ row, (f row).attemptId = row.attemptId} (hjob : ∀ row, (f row).jobId = row.jobId)
    (h : db.updateAttempts p f hkey = .ok db') :
    (db.ofRun runId).updateAttempts p f hkey = .ok (db'.ofRun runId) := by
  obtain ⟨hallowed, rfl⟩ := updateAttempts_eq_ok_iff.mp h
  exact updateAttempts_eq_ok_iff.mpr ⟨hallowed.ofRun hjob, ofRun_withAttempts hjob⟩

/-- So it does with an attempt of the run that the database takes in. -/
theorem ofRun_insertAttempt {row : AttemptRow} {job : Job} (h : db.insertAttempt row = .ok db')
    (hjob : db.jobs.find? row.jobId = some job) (hrun : job.runId = runId) :
    (db.ofRun runId).insertAttempt row = .ok (db'.ofRun runId) := by
  obtain ⟨attempts, hinsert, hcheck, _, hreferences, rfl⟩ := insertAttempt_ok h
  have hunique : AuthorityUnique attempts := by
    simp only [Db.insertAttempt, hinsert] at h
    split at h
    next hallowed => exact hallowed.2.2.2
    next => cases h
  have hpart := Table.restrict_insert? hinsert ((isOfRun_iff hjob).mpr hrun)
  have hsublist : AuthorityUnique (attempts.restrict (db.isOfRun runId)) :=
    hunique.sublist (List.Sublist.map _ (List.filter_sublist.filter _))
  have hfound := ofRun_job hjob hrun
  unfold Db.insertAttempt
  rw [show (db.ofRun runId).evaluationAttempts.insert? row = _ from hpart]
  dsimp only
  rw [if_pos ⟨hcheck, by rw [hfound]; rfl, hreferences, hsublist⟩]
  rfl

/-- An attempt of another run. -/
theorem ofRun_insertAttempt_of_ne {row : AttemptRow} {job : Job}
    (h : db.insertAttempt row = .ok db')
    (hjob : db.jobs.find? row.jobId = some job) (hrun : job.runId ≠ runId) :
    db'.ofRun runId = db.ofRun runId := by
  obtain ⟨attempts, hinsert, _, _, _, rfl⟩ := insertAttempt_ok h
  have hnot : db.isOfRun runId row = false :=
    Bool.eq_false_iff.mpr (mt (isOfRun_iff hjob).mp hrun)
  have hpart := Table.restrict_insert?_of_not hinsert hnot
  change ({ db.ofRun runId with
    evaluationAttempts := attempts.restrict (db.isOfRun runId) } : Db) = db.ofRun runId
  rw [hpart]
  rfl

theorem ofRun_updateRun {other : String} {f : AuditRunRow → AuditRunRow}
    {hkey : ∀ row, (f row).runId = row.runId} :
    (db.updateRun other f hkey).ofRun runId = (db.ofRun runId).updateRun other f hkey := by
  have hruns : (db.auditRuns.update (fun row => row.runId = other) f hkey).restrict
        (fun run => run.runId = runId) =
      (db.auditRuns.restrict fun run => run.runId = runId).update
        (fun row => row.runId = other) f hkey := by
    apply Table.restrict_update
    intro row _ _
    rw [hkey]
  exact congrArg (fun runs => ({ db.ofRun runId with auditRuns := runs } : Db)) hruns

/-- The row of another run is left out. -/
theorem ofRun_updateRun_of_ne {other : String} {f : AuditRunRow → AuditRunRow}
    {hkey : ∀ row, (f row).runId = row.runId} (hne : other ≠ runId) :
    (db.updateRun other f hkey).ofRun runId = db.ofRun runId := by
  rw [ofRun_updateRun]
  have hruns : (db.ofRun runId).auditRuns.update (fun row => row.runId = other) f hkey =
      (db.ofRun runId).auditRuns := by
    apply Table.update_eq_self
    intro row hrow
    obtain ⟨_, hof⟩ := Table.mem_restrict.mp hrow
    apply decide_eq_false
    intro heq
    exact hne (heq.symm.trans (of_decide_eq_true hof))
  simp only [Db.updateRun, hruns]

theorem ofRun_closesRun : closesRun (db.ofRun runId) runId = closesRun db runId := by
  simp only [closesRun, ofRun_auditRun, ofRun_runJobs]

/-- A run is settled by its own row and its own jobs. Neither changes when the rows of other
runs are left out. -/
theorem ofRun_updateRunState {nowMs : Int} (h : updateRunState db runId nowMs = .ok db') :
    updateRunState (db.ofRun runId) runId nowMs = .ok (db'.ofRun runId) := by
  -- Closing and its state depend on the jobs and the flag of the run alone.
  have hstate : closedState (db.ofRun runId) runId = closedState db runId := by
    simp only [closedState, ofRun_cancelRequested, ofRun_runJobs]
  rw [updateRunState_eq] at h ⊢
  rw [ofRun_closesRun]
  split at h
  next hclosing =>
    rw [if_pos hclosing]
    cases hclock : isoOfMs nowMs with
    | error exc =>
        rw [hclock] at h
        cases h
    | ok finishedAt =>
        rw [hclock] at h
        obtain rfl := Except.ok.inj h
        simp only [Except.map, closedDb, ofRun_updateRun, hstate]
  next hopen =>
    rw [if_neg hopen]
    obtain rfl := Except.ok.inj h
    simp only [startedDb, ofRun_auditRun, ofRun_runJobs]
    cases db.auditRuns.find? runId with
    | none => rfl
    | some run =>
        dsimp only
        split
        · rw [ofRun_updateRun]
        · rfl

/-- Settling another run reads and writes rows that are left out. -/
theorem ofRun_updateRunState_of_ne {other : String} {nowMs : Int} (hne : other ≠ runId)
    (h : updateRunState db other nowMs = .ok db') : db'.ofRun runId = db.ofRun runId := by
  rw [updateRunState_eq] at h
  split at h
  next =>
    cases hclock : isoOfMs nowMs with
    | error exc =>
        rw [hclock] at h
        cases h
    | ok finishedAt =>
        rw [hclock] at h
        obtain rfl := Except.ok.inj h
        exact ofRun_updateRun_of_ne hne
  next =>
    obtain rfl := Except.ok.inj h
    unfold startedDb
    split
    · rfl
    · split
      · exact ofRun_updateRun_of_ne hne
      · rfl

/-- Cancelling the pending jobs of other runs. -/
theorem ofRun_failPending {other : String} :
    (failPending db other).ofRun runId = failPending (db.ofRun runId) other :=
  ofRun_updateJobs fun _ => rfl

theorem ofRun_failPending_of_ne {other : String} (hne : other ≠ runId) :
    (failPending db other).ofRun runId = db.ofRun runId := by
  refine ofRun_updateJobs_of_ne (fun _ => rfl) ?_
  intro row _ htarget heq
  simp only [Bool.and_eq_true, decide_eq_true_eq] at htarget
  exact hne (htarget.1.symm.trans heq)

end Statements

end VerifierCI
