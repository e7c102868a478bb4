import VerifierCI.Execution.JobMoves
import VerifierCI.Execution.RunLifecycle

/-! # Cancelled runs

A request sets the flag of a run and fails its pending jobs. The flag is never
cleared; while it is set the reaper fails what it reaps, so no job of the run
becomes pending again, and the run can only be closed as cancelled.
-/

namespace VerifierCI

open Python Relational

/-! ## The flag -/

/-- The run has been asked to stop. -/
def Db.Flagged (db : Db) (runId : String) : Prop :=
  ∃ run, db.auditRuns.find? runId = some run ∧ run.cancelRequested = true

def Db.ClosesCancelled (db : Db) (runId : String) : Prop :=
  ∀ run, db.auditRuns.find? runId = some run → run.state.isTerminal = true → run.state = .cancelled

def Db.NoPending (db : Db) (runId : String) : Prop :=
  ∀ job ∈ db.jobs, job.runId = runId → job.state ≠ .pending

section Flag

variable {db db' : Db} {runId : String}

theorem Db.Flagged.cancelRequested (h : db.Flagged runId) :
    VerifierCI.cancelRequested db runId = true := by
  obtain ⟨run, hrun, hflag⟩ := h
  simp only [VerifierCI.cancelRequested, hrun, hflag]

/-- No statement of the queue resets `cancel_requested`. -/
theorem Db.Statement.flagged (h : Db.Statement db db') (hflag : db.Flagged runId) :
    db'.Flagged runId := by
  obtain ⟨run, hrun, hrequested⟩ := hflag
  cases h with
  | jobs => exact ⟨run, hrun, hrequested⟩
  | attempts => exact ⟨run, hrun, hrequested⟩
  | @settle _ other nowMs h =>
      by_cases hsame : other = runId
      · subst hsame
        obtain ⟨run', hrun', hupdate⟩ := updateRunState_row hrun h
        refine ⟨run', hrun', ?_⟩
        cases hupdate <;> exact hrequested
      · obtain ⟨runs, rfl, hothers⟩ := updateRunState_ok h
        exact ⟨run, (hothers runId (Ne.symm hsame)).trans hrun, hrequested⟩
  | flag other =>
      have hflagged := @flag_row db runId other run hrun
      obtain ⟨run', hrun', rfl | rfl⟩ := hflagged
      · exact ⟨_, hrun', hrequested⟩
      · exact ⟨_, hrun', rfl⟩

/-- A flagged run is only ever closed as cancelled. The state a run is closed with is chosen by
the flag alone, and no statement takes the flag away. -/
theorem Db.Statement.closesCancelled (h : Db.Statement db db') (hflag : db.Flagged runId)
    (hcloses : db.ClosesCancelled runId) : db'.ClosesCancelled runId := by
  obtain ⟨run, hrun, hrequested⟩ := hflag
  have hkept := hcloses run hrun
  intro run' hrun' hterminal
  cases h with
  | jobs => exact hcloses run' hrun' hterminal
  | attempts => exact hcloses run' hrun' hterminal
  | @settle _ other nowMs h =>
      by_cases hsame : other = runId
      · subst hsame
        obtain ⟨settled, hsettled, hupdate⟩ := updateRunState_row hrun h
        obtain rfl := Option.some.inj (hsettled.symm.trans hrun')
        cases hupdate with
        | kept => exact hkept hterminal
        | started => cases hterminal
        | closed now hopen hfinished =>
            show closedState db other = .cancelled
            rw [closedState, Db.Flagged.cancelRequested ⟨run, hrun, hrequested⟩, if_pos rfl]
      · obtain ⟨runs, rfl, hothers⟩ := updateRunState_ok h
        exact hcloses run' ((hothers runId (Ne.symm hsame)).symm.trans hrun') hterminal
  | flag other =>
      have hrow := @flag_row db runId other run hrun
      obtain ⟨flagged, hflagged, rfl | rfl⟩ := hrow
      · obtain rfl := Option.some.inj (hflagged.symm.trans hrun')
        exact hkept hterminal
      · obtain rfl := Option.some.inj (hflagged.symm.trans hrun')
        exact hkept hterminal

theorem Db.Statements.flagged (h : Db.Statements db db') (hflag : db.Flagged runId) :
    db'.Flagged runId := by
  induction h with
  | refl => exact hflag
  | tail _ hlast ih => exact hlast.flagged ih

theorem Db.Statements.closesCancelled (h : Db.Statements db db') (hflag : db.Flagged runId)
    (hcloses : db.ClosesCancelled runId) : db'.ClosesCancelled runId := by
  induction h with
  | refl => exact hcloses
  | tail hpath hlast ih => exact hlast.closesCancelled (Db.Statements.flagged hpath hflag) ih

/-- The reaper fails the jobs of a flagged run. -/
theorem reapedState_of_flagged {row : Job} (hflag : db.Flagged row.runId)
    (maxAttempts : Option Int) :
    reapedState db row maxAttempts = (.failed, some "CANCELLED") := by
  rw [reapedState, hflag.cancelRequested, if_pos rfl]

/-- No move makes a job of a flagged run pending. -/
theorem JobMove.not_pending {row row' : Job} {op : Operation}
    (h : JobMove (db.mayReap op) row row') (hflag : db.Flagged runId)
    (hbefore : row.runId = runId → row.state ≠ .pending) (hrun : row'.runId = runId) :
    row'.state ≠ .pending := by
  have hrow : row.runId = runId := h.runId.symm.trans hrun
  have hnot := hbefore hrow
  cases h with
  | grant => exact fun heq => by cases heq
  | cancel => exact fun heq => by cases heq
  | start => exact fun heq => by cases heq
  | extend => exact hnot
  | reap outcome hheld hreaps =>
      obtain ⟨nowMs, maxAttempts, _, rfl⟩ := hreaps
      subst hrow
      rw [reapedState_of_flagged hflag]
      exact fun heq => by cases heq
  | commit attempt hopen =>
      intro heq
      have hfinished := terminalOf_finished attempt
      rw [show (terminalOf attempt).1 = .pending from heq] at hfinished
      cases hfinished

end Flag

/-! ## After the request -/

/-- What a call keeps of a cancelled run. -/
structure Db.Cancelling (db : Db) (runId : String) : Prop where
  flagged : db.Flagged runId
  noPending : db.NoPending runId

section Cancelling

variable {db db' : Db} {runId : String} {nowMs : Int}

/-- The bulk update of a cancellation leaves no job of the run to be claimed. -/
theorem failPending_noPending (db : Db) (runId : String) :
    (failPending db runId).NoPending runId := by
  intro job hjob hrun hpending
  rw [failPending, updateJobs_jobs, Table.mem_update] at hjob
  obtain ⟨old, _, rfl⟩ := hjob
  split at hpending
  next => cases hpending
  next hp =>
    rw [if_neg hp] at hrun
    exact hp (by simp [hrun, hpending])

theorem failPending_eq_self (h : db.NoPending runId) : failPending db runId = db := by
  have hjobs : db.jobs.update (fun job => job.runId = runId && job.state = .pending) cancelledRow
      cancelledRow_jobId = db.jobs := by
    refine Table.update_eq_self ?_
    intro job hjob
    by_cases hrun : job.runId = runId
    · simp [h job hjob hrun]
    · simp [hrun]
  rw [failPending, Db.updateJobs, hjobs]

theorem cancelledRun_eq_self {run : AuditRunRow} (h : run.cancelRequested = true) :
    cancelledRun run = run := by
  cases run
  cases h
  rfl

theorem Db.Cancelling.call (h : db.Cancelling runId) (op : Operation) :
    (db.call op).Cancelling runId where
  flagged := (call_statements db op runId).1.flagged h.flagged
  noPending := (call_moves db op).keeps
    (fun _ _ hmove hbefore => hmove.not_pending h.flagged hbefore) h.noPending

/-- By induction over the calls: each keeps what the next one needs. -/
theorem Db.Cancelling.run (h : db.Cancelling runId) (ops : List Operation) :
    (Transition.run Db.call db ops).Cancelling runId :=
  Transition.run_invariant (Db.Cancelling · runId) (fun _ op h => h.call op) h ops

/-- A run that was asked to stop is never closed in another state. -/
theorem run_closesCancelled (h : db.Cancelling runId) (hcloses : db.ClosesCancelled runId)
    (ops : List Operation) : (Transition.run Db.call db ops).ClosesCancelled runId := by
  induction ops generalizing db with
  | nil => exact hcloses
  | cons op rest ih =>
      exact ih (h.call op)
        ((call_statements db op runId).1.closesCancelled h.flagged hcloses)

/-- No claim hands out a job of a cancelled run. -/
theorem Db.Cancelling.granted? (h : db.Cancelling runId) {op : Operation} {handle : Job}
    (hgranted : db.granted? op = some handle) : handle.runId ≠ runId := by
  obtain ⟨workerId, nowMs, only, leaseDurationMs, draw, db', rfl, hloop, _⟩ :=
    granted?_cases hgranted
  obtain ⟨_, hrow⟩ : JobsMove (db.mayReap (.getJob "")) db db' ∧ _ := claimLoop_row hloop
  obtain ⟨swept, row, hmoves, hfind, hpending, hrun, _⟩ := hrow handle rfl
  have hswept := hmoves.keeps
    (fun _ _ hmove hbefore => hmove.not_pending h.flagged hbefore) h.noPending
  intro hcancelled
  exact hswept row (Table.mem_of_find? hfind) (hrun.symm.trans hcancelled) hpending

/-- A claim hands out pending jobs only, and of a cancelled run none is left. -/
theorem Db.Cancelling.not_claimed (h : db.Cancelling runId) {workerId : String}
    {only : Option String} {leaseDurationMs : Int} {draw : Draw} {handle : Job}
    (hclaim : (claim db workerId nowMs only leaseDurationMs draw).1 = .ok (some handle)) :
    handle.runId ≠ runId := by
  have hgranted : db.granted? (.claim workerId nowMs only leaseDurationMs draw) = some handle := by
    rw [Db.granted?, hclaim]
    rfl
  exact h.granted? hgranted

/-- A reaped job of a cancelled run fails. -/
theorem Db.Cancelling.reaped (h : db.Cancelling runId) {maxAttempts : Option Int}
    {ids : List String} (hreap : (reapExpired db nowMs maxAttempts).1 = .ok ids) {job : Job}
    (hjob : job ∈ db.jobs) (hrunId : job.runId = runId) (hmem : job.jobId ∈ ids) :
    ∃ row, (reapExpired db nowMs maxAttempts).2.jobs.find? job.jobId = some row ∧
      row.state = .failed ∧ row.terminalReason = some "CANCELLED" := by
  subst hrunId
  refine ⟨_, reapExpired_row hreap hjob hmem, ?_⟩
  rw [reapedState_of_flagged h.flagged]
  exact ⟨rfl, rfl⟩

/-- What the request leaves behind, unless it raises. The flag is set, nothing of the run is
pending, and a run that was still open can from then on be closed as cancelled only. -/
theorem requestCancel_cancelling {run : AuditRunRow} (hrun : db.auditRuns.find? runId = some run)
    (hreturns : (requestCancel db runId nowMs).1 = .ok ()) :
    (requestCancel db runId nowMs).2.Cancelling runId ∧
      (run.state.isTerminal = false → (requestCancel db runId nowMs).2.ClosesCancelled runId) := by
  rcases requestCancel_cases db runId nowMs with ⟨db', hclosed, heq⟩ | ⟨exc, heq⟩
  · rw [heq]
    have hid : run.runId = runId := Table.key_of_find? hrun
    have hfind : (db.updateRun runId cancelledRun cancelledRun_runId).auditRuns.find? runId =
        some (cancelledRun run) := by
      rw [Db.updateRun, Table.find?_update, hrun, Option.map_some, if_pos (by simp [hid])]
    have hflag : (db.updateRun runId cancelledRun cancelledRun_runId).Flagged runId :=
      ⟨cancelledRun run, hfind, rfl⟩
    have hpath : Db.Statements (db.updateRun runId cancelledRun cancelledRun_runId) db' :=
      .tail (.single (failPending_statement _ runId)) (.settle hclosed)
    refine ⟨⟨hpath.flagged hflag, ?_⟩, ?_⟩
    · obtain ⟨runs, rfl, _⟩ := updateRunState_ok hclosed
      exact failPending_noPending (db.updateRun runId cancelledRun cancelledRun_runId) runId
    · intro hopen
      refine hpath.closesCancelled hflag ?_
      intro run' hrun' hterminal
      obtain rfl := Option.some.inj (hfind.symm.trans hrun')
      rw [show (cancelledRun run).state = run.state from rfl, hopen] at hterminal
      cases hterminal
  · rw [heq] at hreturns
    cases hreturns

/-- Recomputing the state of a run a second time changes nothing. A run that was closed is
terminal, one that was started is no longer planned, and the rest stays as it is. -/
theorem updateRunState_again (h : updateRunState db runId nowMs = .ok db') (later : Int) :
    updateRunState db' runId later = .ok db' := by
  have hjobs : ∀ runs : Table AuditRunRow.runId,
      Db.runJobs { db with auditRuns := runs } runId = db.runJobs runId := fun _ => rfl
  cases hrun : db.auditRuns.find? runId with
  | none =>
      rw [updateRunState_eq] at h
      simp only [closesRun, startedDb, hrun, Bool.false_eq_true, if_false] at h
      obtain rfl := Except.ok.inj h
      rw [updateRunState_eq]
      simp only [closesRun, startedDb, hrun, Bool.false_eq_true, if_false]
  | some run =>
      obtain ⟨run', hrun', hupdate⟩ := updateRunState_row hrun h
      obtain ⟨runs, rfl, _⟩ := updateRunState_ok h
      have hsame := hjobs runs
      rw [updateRunState_eq]
      simp only [closesRun, startedDb, hrun', hsame]
      -- What the first call did to the row decides why the second one has nothing left to do.
      cases hupdate with
      | kept hopen hplanned =>
          have hstays : (!run.state.isTerminal && !(db.runJobs runId).isEmpty &&
              (db.runJobs runId).all fun job => job.state.isFinished) = false := by
            rcases hopen with hterminal | hempty | ⟨job, hjob, hunfinished⟩
            · simp [hterminal]
            · simp [hempty]
            · have hall : ((db.runJobs runId).all fun job => job.state.isFinished) = false :=
                List.all_eq_false.mpr ⟨job, hjob, by simp [hunfinished]⟩
              simp [hall]
          rw [hstays, if_neg (by simp), if_neg]
          rintro ⟨hstate, hany⟩
          rcases hplanned with hnot | hempty
          · exact hnot hstate
          · simp [hempty] at hany
      | started hplanned hactive =>
          -- an unfinished job keeps the run from being closed
          obtain ⟨job, hjob, hunfinished⟩ := hactive
          have hall : ((db.runJobs runId).all fun job => job.state.isFinished) = false :=
            List.all_eq_false.mpr ⟨job, hjob, by simp [hunfinished]⟩
          rw [hall, Bool.and_false, if_neg (by simp), if_neg]
          rintro ⟨hstate, _⟩
          cases hstate
      | closed now hopen hfinished =>
          have hterminal := closedState_terminal db runId
          have hstate :
              (closedRun (closedState db runId) now run).state = closedState db runId := rfl
          rw [hstate, hterminal, Bool.not_true, Bool.false_and, Bool.false_and, if_neg (by simp),
            if_neg]
          rintro ⟨hplanned, _⟩
          rw [hplanned] at hterminal
          cases hterminal

/-- Asking a cancelled run to stop changes nothing. -/
theorem flag_eq_self (h : ∀ run, db.auditRuns.find? runId = some run → run.cancelRequested = true) :
    db.updateRun runId cancelledRun cancelledRun_runId = db := by
  have hruns : db.auditRuns.update (fun row => row.runId = runId) cancelledRun
      cancelledRun_runId = db.auditRuns := by
    refine Table.update_eq_self_of_fixed ?_
    intro row hrow hp
    have hid : row.runId = runId := of_decide_eq_true hp
    exact cancelledRun_eq_self (h row (hid ▸ Table.find?_of_mem hrow))
  rw [Db.updateRun, hruns]

/-- A second request right after the first changes nothing. The flag is set already, there is
nothing left pending to fail, and the state of the run has been recomputed. -/
theorem requestCancel_again (hreturns : (requestCancel db runId nowMs).1 = .ok ()) (later : Int) :
    requestCancel (requestCancel db runId nowMs).2 runId later =
      (.ok (), (requestCancel db runId nowMs).2) := by
  rcases requestCancel_cases db runId nowMs with ⟨db', hclosed, heq⟩ | ⟨exc, heq⟩
  · rw [heq]
    -- The flag is set, unless there is no such run.
    have hflag : ∀ run, db'.auditRuns.find? runId = some run → run.cancelRequested = true := by
      intro run' hrun'
      cases hrun : db.auditRuns.find? runId with
      | none =>
          have hnone : (cancelledDb db runId).auditRuns.find? runId = none := by
            show (db.auditRuns.update (fun row => row.runId = runId) cancelledRun
              cancelledRun_runId).find? runId = none
            rw [Table.find?_update, hrun, Option.map_none]
          rw [updateRunState_eq] at hclosed
          simp only [closesRun, startedDb, hnone, Bool.false_eq_true, if_false] at hclosed
          obtain rfl := Except.ok.inj hclosed
          rw [hnone] at hrun'
          cases hrun'
      | some run =>
          have hreturns' : (requestCancel db runId nowMs).1 = .ok () := hreturns
          obtain ⟨flagged, hfind, hrequested⟩ :=
            (requestCancel_cancelling hrun hreturns').1.flagged
          rw [heq] at hfind
          obtain rfl := Option.some.inj (hfind.symm.trans hrun')
          exact hrequested
    -- The first request left nothing pending, and the update of the run is done.
    have hpending : db'.NoPending runId := by
      obtain ⟨runs, rfl, _⟩ := updateRunState_ok hclosed
      exact failPending_noPending (db.updateRun runId cancelledRun cancelledRun_runId) runId
    refine transaction_ok ?_
    simp only [flag_eq_self hflag, failPending_eq_self hpending]
    rw [updateRunState_again hclosed later]
    rfl
  · rw [heq] at hreturns
    cases hreturns

/-- A finished job is never written again. -/
theorem JobMove.of_finished {reaps : Job → JobState × Option String → Prop} {row row' : Job}
    (h : JobMove reaps row row') (hfinished : row.state.isFinished = true) : row' = row := by
  cases h with
  | extend expires hheld => exact absurd hfinished (Ledger.not_finished_of_held hheld)
  | reap outcome hheld => exact absurd hfinished (Ledger.not_finished_of_held hheld)
  | commit attempt hopen =>
      cases hstate : row.state <;> simp [hstate, JobState.isFinished, JobState.isTerminal] at *
  | grant workerId expires draw hpending =>
      exact absurd hfinished (Ledger.not_finished_of_pending hpending)
  | cancel hpending => exact absurd hfinished (Ledger.not_finished_of_pending hpending)
  | start hclaimed =>
      rw [hclaimed] at hfinished
      cases hfinished

/-- Finished jobs are frozen, whatever the call and whoever makes it. -/
theorem call_of_finished {job : Job} (hjob : db.jobs.find? job.jobId = some job)
    (hfinished : job.state.isFinished = true) (op : Operation) :
    (db.call op).jobs.find? job.jobId = some job := by
  obtain ⟨row', hrow', hpath⟩ := (call_moves db op).forward _ _ hjob
  have hkept : ∀ row later, JobMove (db.mayReap op) row later → row = job → later = job := by
    intro row later hmove hrow
    subst hrow
    exact hmove.of_finished hfinished
  rw [hrow', JobsMove.induction hkept hpath rfl]

/-- Jobs that are done or failed when a run starts are the same rows at its end. -/
theorem run_of_finished {job : Job} (hjob : db.jobs.find? job.jobId = some job)
    (hfinished : job.state.isFinished = true) (ops : List Operation) :
    (Transition.run Db.call db ops).jobs.find? job.jobId = some job := by
  induction ops generalizing db with
  | nil => exact hjob
  | cons op rest ih => exact ih (call_of_finished hjob hfinished op)

end Cancelling

/-- What is left of a run that was asked to stop in the queue `asked`, in a
later queue `db`. -/
structure Cancelled (asked : Db) (run : AuditRunRow) (db : Db) : Prop where
  pending : ∀ job ∈ db.jobs, job.runId = run.runId → job.state ≠ .pending
  claims : ∀ workerId nowMs only leaseDurationMs draw handle,
    (claim db workerId nowMs only leaseDurationMs draw).1 = .ok (some handle) →
      handle.runId ≠ run.runId
  reaped : ∀ nowMs maxAttempts ids, (reapExpired db nowMs maxAttempts).1 = .ok ids →
    ∀ job ∈ db.jobs, job.runId = run.runId → job.jobId ∈ ids →
      ∃ row, (reapExpired db nowMs maxAttempts).2.jobs.find? job.jobId = some row ∧
        row.state = .failed ∧ row.terminalReason = some "CANCELLED"
  finished : ∀ job ∈ asked.jobs, job.state = .done ∨ job.state = .failed →
    db.jobs.find? job.jobId = some job
  closed : run.state.isTerminal = false → ∀ row, db.auditRuns.find? run.runId = some row →
    row.state.isTerminal = true → row.state = .cancelled

/-- Once a request has returned, the run is cancelled in every later queue, and
a second request right after the first changes nothing. -/
theorem run_cancelled {db : Db} {runId : String} {nowMs : Int} {run : AuditRunRow}
    (hrun : db.auditRuns.find? runId = some run)
    (hreturns : (requestCancel db runId nowMs).1 = .ok ()) :
    (∀ later, Cancelled db run (Transition.run Db.call (requestCancel db runId nowMs).2 later)) ∧
      ∀ again, requestCancel (requestCancel db runId nowMs).2 runId again =
        (.ok (), (requestCancel db runId nowMs).2) := by
  have hid : run.runId = runId := Table.key_of_find? hrun
  subst hid
  obtain ⟨hcancelling, hcloses⟩ := requestCancel_cancelling hrun hreturns
  refine ⟨fun later => ?_, requestCancel_again hreturns⟩
  have hlater := hcancelling.run later
  constructor
  case pending => exact hlater.noPending
  case claims =>
    intro workerId nowMs only leaseDurationMs draw handle hclaim
    exact hlater.not_claimed hclaim
  case reaped =>
    intro nowMs maxAttempts ids hreap job hjob hrunId hmem
    exact hlater.reaped hreap hjob hrunId hmem
  case finished =>
    intro job hjob hstate
    have hfinished := JobState.isFinished_iff.mpr hstate
    exact run_of_finished (call_of_finished (Table.find?_of_mem hjob) hfinished
      (.requestCancel run.runId nowMs)) hfinished later
  case closed =>
    intro hopen row hrow hterminal
    exact run_closesCancelled hcancelling (hcloses hopen) later row hrow hterminal

/-- The one job is out when its run is asked to stop; later calls may be any. -/
theorem run_cancelled_solo :
    (∀ later, Cancelled (soloDb.call soloClaim) (startedRun plannedRun)
      (Transition.run Db.call (requestCancel (soloDb.call soloClaim) "run" 10).2 later)) ∧
      ∀ again, requestCancel (requestCancel (soloDb.call soloClaim) "run" 10).2 "run" again =
        (.ok (), (requestCancel (soloDb.call soloClaim) "run" 10).2) :=
  run_cancelled rfl rfl

end VerifierCI
