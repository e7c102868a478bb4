import VerifierCI.Execution.ClaimSearch
import VerifierCI.Execution.LeaseDeadlines
import VerifierCI.Transition.FencedLock

/-! # Every job is a lock with fencing tokens

What the queue answers about one job over a run is the history of a lock: a
claim acquires it under the next fence, a reap releases or closes it, a
cancellation closes it, and a commit is accepted under the current fence.
-/

namespace VerifierCI

open Python Relational Transition FencedLock

/-- The phase of the lock a job in this state stands for. -/
def JobState.phase : JobState → Phase
  | .pending => .free
  | .claimed | .running => .held
  | .done | .failed | .abandoned => .closed

@[simp] theorem phase_pending : JobState.pending.phase = .free := rfl

@[simp] theorem phase_failed : JobState.failed.phase = .closed := rfl

/-- The lock a row of `jobs` stands for. -/
def Job.lock (job : Job) : Lock := ⟨job.state.phase, job.fence⟩

/-- A pending job that a call fails. -/
def Db.closings (db : Db) (jobId : String) (op : Operation) : List Event :=
  match db.jobs.find? jobId, (db.call op).jobs.find? jobId with
  | some row, some row' =>
      if row.state = .pending ∧ row'.state ≠ .pending then [.close] else []
  | _, _ => []

/-- What a call does to the lock of one job: a claim that returns the job
acquires it and a completion that commits it is accepted; a reap that returns
it releases the lock, or closes it if the retries are used up. -/
def Db.jobEvents (db : Db) (jobId : String) (op : Operation) : List Event :=
  match op with
  | .claim _ _ _ _ _ =>
      match db.granted? op with
      | some handle =>
          if handle.jobId = jobId then [.acquire handle.fence] else db.closings jobId op
      | none => db.closings jobId op
  | .complete job attempt nowMs =>
      match (complete db job attempt nowMs).1 with
      | .ok .committed => if job.jobId = jobId then [.accept attempt.fence] else []
      | _ => []
  | .reapExpired nowMs maxAttempts =>
      match (reapExpired db nowMs maxAttempts).1 with
      | .ok ids =>
          if jobId ∈ ids then
            match (db.call op).jobs.find? jobId with
            | some row' => if row'.state = .pending then [.release] else [.close]
            | none => []
          else []
      | .error _ => []
  | .requestCancel _ _ => db.closings jobId op
  | _ => []

def Db.jobTrace (jobId : String) : Db → List Operation → List Event
  | _, [] => []
  | db, op :: rest => db.jobEvents jobId op ++ (db.call op).jobTrace jobId rest

/-! ## One call -/

section Calls

variable {db : Db} {row row' : Job}

/-- A call that leaves the row's lock alone has no events for it. -/
theorem replay_unchanged (h : row'.lock = row.lock) : row.lock.replay? [] = some row'.lock := by
  rw [Lock.replay?_nil, h]

theorem phase_of_held {state : JobState} (hheld : state.isHeld = true) : state.phase = .held := by
  rcases JobState.isHeld_iff.mp hheld with rfl | rfl <;> rfl

/-- A row that stays, or is cancelled, is the lock after the closing of its row. -/
theorem replay_closings {op : Operation} (hrow : db.jobs.find? row.jobId = some row)
    (hrow' : (db.call op).jobs.find? row.jobId = some row')
    (hcases : row' = row ∨ (row.state = .pending ∧ row' = cancelledRow row)) :
    row.lock.replay? (db.closings row.jobId op) = some row'.lock := by
  simp only [Db.closings, hrow, hrow']
  rcases hcases with rfl | ⟨hpending, rfl⟩
  · simp
  · simp [hpending, cancelledRow, Lock.replay?, Lock.step?, Job.lock]

/-- A claim acquires the lock of the job it returns and closes those of the jobs it cancels on
its way. It raises without an event. -/
theorem claim_replays (hrow : db.jobs.find? row.jobId = some row) {workerId : String} {nowMs : Int}
    {runId : Option String} {leaseDurationMs : Int} {draw : Draw} :
    ∃ row', (db.call (.claim workerId nowMs runId leaseDurationMs draw)).jobs.find? row.jobId =
        some row' ∧
      row.lock.replay? (db.jobEvents row.jobId (.claim workerId nowMs runId leaseDurationMs draw)) =
        some row'.lock := by
  have hmem := Table.mem_of_find? hrow
  rcases claim_cases db workerId nowMs runId leaseDurationMs draw with
    ⟨result, db', hloop, heq⟩ | ⟨exc, heq⟩
  · obtain ⟨next, heffect, hresult⟩ := claimLoop_effect hloop
    have hgranted : db.granted? (.claim workerId nowMs runId leaseDurationMs draw) =
        next.map fun row => grantedJob row workerId (nowMs + leaseDurationMs) draw := by
      rw [Db.granted?, heq]
      exact hresult
    have hcall : db.call (.claim workerId nowMs runId leaseDurationMs draw) = db' := by
      rw [Db.call, heq]
    -- the rows that are not leased stay or are swept
    have hothers : row ∉ next → ∃ row', db'.jobs.find? row.jobId = some row' ∧
        (row' = row ∨ (row.state = .pending ∧ row' = cancelledRow row)) := by
      intro hnot
      by_cases hswept : db.Swept runId next row
      · exact ⟨_, heffect.swept row hswept, Or.inr ⟨hswept.pending, rfl⟩⟩
      · exact ⟨_, heffect.kept row hmem hnot hswept, Or.inl rfl⟩
    rw [← hcall] at hothers
    cases next with
    | none =>
        obtain ⟨row', hrow', hcases⟩ := hothers (by simp)
        refine ⟨row', hrow', ?_⟩
        simp only [Db.jobEvents, hgranted, Option.map_none]
        exact replay_closings hrow hrow' hcases
    | some leased =>
        by_cases hid : leased.jobId = row.jobId
        · obtain rfl : leased = row :=
            Table.eq_of_key_eq (heffect.found.claimable leased rfl).mem hmem hid
          have hpending := (heffect.found.claimable leased rfl).pending
          refine ⟨_, hcall ▸ heffect.leased leased rfl, ?_⟩
          simp [Db.jobEvents, hgranted, grantedJob, leasedRow, Lock.replay?, Lock.step?, Job.lock,
            hpending, JobState.phase]
        · obtain ⟨row', hrow', hcases⟩ := hothers (by
            intro hsome
            exact hid (congrArg Job.jobId (Option.some.inj hsome)))
          refine ⟨row', hrow', ?_⟩
          have hother : (grantedJob leased workerId (nowMs + leaseDurationMs) draw).jobId ≠
              row.jobId := hid
          simp only [Db.jobEvents, hgranted, Option.map_some, if_neg hother]
          exact replay_closings hrow hrow' hcases
  · have hcall : db.call (.claim workerId nowMs runId leaseDurationMs draw) = db := by
      rw [Db.call, heq]
    have hgranted : db.granted? (.claim workerId nowMs runId leaseDurationMs draw) = none := by
      rw [Db.granted?, heq]
      rfl
    have hsame : (db.call (.claim workerId nowMs runId leaseDurationMs draw)).jobs.find? row.jobId =
        some row := by
      rw [hcall]
      exact hrow
    refine ⟨row, hsame, ?_⟩
    simp only [Db.jobEvents, hgranted]
    exact replay_closings hrow hsame (Or.inl rfl)

/-- A completion shows on the lock only if it commits, and it commits under the fence the lock
gave out last. -/
theorem complete_replays (hinv : QueueInv db) (hrow : db.jobs.find? row.jobId = some row)
    {job : Job} {attempt : EvaluationAttempt} {nowMs : Int} :
    ∃ row', (db.call (.complete job attempt nowMs)).jobs.find? row.jobId = some row' ∧
      row.lock.replay? (db.jobEvents row.jobId (.complete job attempt nowMs)) = some row'.lock := by
  have hmem := Table.mem_of_find? hrow
  rcases complete_spec db job attempt nowMs with
    ⟨_, now, _, heq⟩ | ⟨hcommits, finishedAt, db', _, hrun, heq⟩ | ⟨result, heq, hne⟩
  · refine ⟨row, by rw [Db.call, heq]; exact hrow, ?_⟩
    simp only [Db.jobEvents, heq]
    rfl
  -- Only a commit is an event, and only for the job that the handle names.
  · obtain ⟨stored, attemptRow, hguard⟩ := commits_iff.mp hcommits
    obtain ⟨runs, rfl, _⟩ := updateRunState_ok hrun
    by_cases hid : job.jobId = row.jobId
    · have hstored := hguard.row_eq
      rw [hid, hrow] at hstored
      obtain rfl := Option.some.inj hstored
      have hheld := phase_of_held (hguard.held hinv)
      refine ⟨finishedRow attempt row, ?_, ?_⟩
      · rw [Db.call, heq]
        have hfinished : (committedDb db job attempt finishedAt).jobs.find? row.jobId =
            some (finishedRow attempt row) := by
          rw [committedDb, updateJobs_jobs, Table.find?_update, hrow]
          simp [hid]
        exact hfinished
      · simp only [Db.jobEvents, heq, if_pos hid]
        have hfence : attempt.fence = row.fence := hguard.attempt_fence.trans hguard.fence.symm
        have hclosed : (terminalOf attempt).1.phase = .closed := by
          rcases JobState.isFinished_iff.mp (terminalOf_finished attempt) with hstate | hstate
          · rw [hstate]
            rfl
          · rw [hstate]
            rfl
        simp [Lock.replay?, Lock.step?, Job.lock, hheld, hfence, hclosed, finishedRow]
    · refine ⟨row, ?_, ?_⟩
      · rw [Db.call, heq]
        have hkept : (committedDb db job attempt finishedAt).jobs.find? row.jobId = some row :=
          committedDb_find?_of_ne hmem (fun h => hid h.symm)
        exact hkept
      · simp only [Db.jobEvents, heq, if_neg hid]
        rfl
  · refine ⟨row, by rw [Db.call, heq]; exact hrow, ?_⟩
    have hnone : db.jobEvents row.jobId (.complete job attempt nowMs) = [] := by
      simp only [Db.jobEvents, heq]
    rw [hnone, Lock.replay?_nil]

/-- The reaped jobs are released or closed, as the row each of them is left with says; no other
lock moves. -/
theorem reapExpired_replays (hrow : db.jobs.find? row.jobId = some row) {nowMs : Int}
    {maxAttempts : Option Int} :
    ∃ row', (db.call (.reapExpired nowMs maxAttempts)).jobs.find? row.jobId = some row' ∧
      row.lock.replay? (db.jobEvents row.jobId (.reapExpired nowMs maxAttempts)) =
        some row'.lock := by
  have hmem := Table.mem_of_find? hrow
  cases hreap : (reapExpired db nowMs maxAttempts).1 with
  | error exc =>
      rcases reapExpired_cases db nowMs maxAttempts with ⟨_, _, _, _, _, heq⟩ | ⟨_, heq⟩
      · rw [heq] at hreap
        cases hreap
      · refine ⟨row, by rw [Db.call, heq]; exact hrow, ?_⟩
        simp only [Db.jobEvents, hreap]
        rfl
  | ok ids =>
      by_cases hid : row.jobId ∈ ids
      · have hreleased := reapExpired_row hreap hmem hid
        have hheld : row.state.phase = .held := by
          rw [reapExpired_ids hreap] at hid
          obtain ⟨expired, hexpired, hsame⟩ := List.mem_map.mp hid
          obtain ⟨hexpiredMem, hstate, _, _⟩ := mem_expiredRows.mp hexpired
          obtain rfl := Table.eq_of_key_eq hexpiredMem hmem hsame
          exact phase_of_held hstate
        refine ⟨_, hreleased, ?_⟩
        have hcall : (db.call (.reapExpired nowMs maxAttempts)).jobs.find? row.jobId =
            some (releasedRow (reapedState db row maxAttempts) row) := hreleased
        simp only [Db.jobEvents, hreap, if_pos hid, hcall]
        rcases reapedState_cases db row maxAttempts with hstate | hstate
        · simp [releasedRow, hstate, Lock.replay?, Lock.step?, Job.lock, hheld]
        · simp [releasedRow, hstate, Lock.replay?, Lock.step?, Job.lock, hheld]
      · refine ⟨row, reapExpired_kept hreap hmem hid, ?_⟩
        simp only [Db.jobEvents, hreap, if_neg hid]
        rfl

/-- A cancellation closes the locks that wait in its run, and leaves the held ones to their
holders. -/
theorem requestCancel_replays (hrow : db.jobs.find? row.jobId = some row) {runId : String}
    {nowMs : Int} :
    ∃ row', (db.call (.requestCancel runId nowMs)).jobs.find? row.jobId = some row' ∧
      row.lock.replay? (db.jobEvents row.jobId (.requestCancel runId nowMs)) = some row'.lock := by
  have hmem := Table.mem_of_find? hrow
  rcases requestCancel_cases db runId nowMs with ⟨db', hclosed, heq⟩ | ⟨exc, heq⟩
  · obtain ⟨runs, rfl, _⟩ := updateRunState_ok hclosed
    have hflagged : row ∈ (db.updateRun runId cancelledRun cancelledRun_runId).jobs := hmem
    have hrow' := failPending_find? runId hflagged
    have hcall : (db.call (.requestCancel runId nowMs)).jobs.find? row.jobId =
        some (if row.runId = runId ∧ row.state = .pending then cancelledRow row else row) := by
      rw [Db.call, heq]
      exact hrow'
    refine ⟨_, hcall, replay_closings hrow hcall ?_⟩
    split
    next hcancelled => exact Or.inr ⟨hcancelled.2, rfl⟩
    next => exact Or.inl rfl
  · have hcall : (db.call (.requestCancel runId nowMs)).jobs.find? row.jobId = some row := by
      rw [Db.call, heq]
      exact hrow
    exact ⟨row, hcall, replay_closings hrow hcall (Or.inl rfl)⟩

/-- Marking a job running or renewing its lease is no event of its lock. Who holds the job and
under which token stays as it was, and a lock knows no deadlines. -/
theorem hold_replays (hrow : db.jobs.find? row.jobId = some row) {op : Operation}
    (hop : (∃ job nowMs, op = .markRunning job nowMs) ∨
      ∃ job nowMs extensionMs, op = .heartbeat job nowMs extensionMs) :
    ∃ row', (db.call op).jobs.find? row.jobId = some row' ∧
      row.lock.replay? (db.jobEvents row.jobId op) = some row'.lock := by
  have hmem := Table.mem_of_find? hrow
  rcases hop with ⟨job, nowMs, rfl⟩ | ⟨job, nowMs, extensionMs, rfl⟩
  · rcases markRunning_cases db job nowMs with ⟨target, htarget, hlive, heq⟩ | ⟨exc, _, heq⟩
    · by_cases hid : row.jobId = job.jobId
      · rw [← hid, hrow] at htarget
        obtain rfl := Option.some.inj htarget
        -- a claimed job starts to run, which the lock does not tell from being claimed
        have hrunning : ∃ row', (runningDb db row job).jobs.find? row.jobId = some row' ∧
            row'.lock = row.lock := by
          unfold runningDb
          split
          next hclaimed =>
            refine ⟨runningRow row, ?_, ?_⟩
            · rw [updateJobs_jobs, Table.find?_update, hrow]
              simp [hid]
            · simp [Job.lock, runningRow, hclaimed, JobState.phase]
          next => exact ⟨row, hrow, rfl⟩
        obtain ⟨row', hrow', hsame⟩ := hrunning
        exact ⟨row', by rw [Db.call, heq]; exact hrow', replay_unchanged hsame⟩
      · refine ⟨row, ?_, replay_unchanged rfl⟩
        rw [Db.call, heq]
        exact runningDb_find?_of_ne hmem hid
    · exact ⟨row, by rw [Db.call, heq]; exact hrow, replay_unchanged rfl⟩
  · rcases heartbeat_cases db job nowMs extensionMs with
      ⟨target, _, _, heq⟩ | ⟨_, _, _, heq⟩ | ⟨exc, _, heq⟩
    · refine ⟨_, by rw [Db.call, heq]; exact extendedDb_row hmem, replay_unchanged ?_⟩
      split <;> rfl
    · exact ⟨row, by rw [Db.call, heq]; exact hrow, replay_unchanged rfl⟩
    · exact ⟨row, by rw [Db.call, heq]; exact hrow, replay_unchanged rfl⟩

/-- Every call is a lawful piece of the history of each job. -/
theorem call_replays (hinv : QueueInv db) (hrow : db.jobs.find? row.jobId = some row)
    (op : Operation) : ∃ row', (db.call op).jobs.find? row.jobId = some row' ∧
      row.lock.replay? (db.jobEvents row.jobId op) = some row'.lock := by
  cases op with
  | claim => exact claim_replays hrow
  | markRunning job nowMs => exact hold_replays hrow (Or.inl ⟨job, nowMs, rfl⟩)
  | heartbeat job nowMs extensionMs =>
      exact hold_replays hrow (Or.inr ⟨job, nowMs, extensionMs, rfl⟩)
  | complete => exact complete_replays hinv hrow
  | reapExpired => exact reapExpired_replays hrow
  | requestCancel => exact requestCancel_replays hrow
  | getJob => exact ⟨row, hrow, replay_unchanged rfl⟩

end Calls

/-! ## Runs -/

/-- The history of a run is the history of its first call followed by that of the others. -/
theorem run_replays {db : Db} (hinv : QueueInv db) {row : Job}
    (hrow : db.jobs.find? row.jobId = some row) (ops : List Operation) :
    ∃ row', (run Db.call db ops).jobs.find? row.jobId = some row' ∧
      row.lock.replay? (db.jobTrace row.jobId ops) = some row'.lock := by
  induction ops generalizing db row with
  | nil => exact ⟨row, hrow, rfl⟩
  | cons op rest ih =>
      obtain ⟨middle, hmiddle, hfirst⟩ := call_replays hinv hrow op
      have hid : middle.jobId = row.jobId := Table.key_of_find? hmiddle
      rw [← hid] at hmiddle
      obtain ⟨row', hrow', hrest⟩ := ih (call_queueInv hinv op) hmiddle
      rw [hid] at hrow' hrest
      refine ⟨row', hrow', ?_⟩
      rw [Db.jobTrace, Lock.replay?_append, hfirst]
      exact hrest

/-- From a fresh queue on, whatever is called with whatever handles, the history
of each job is that of a lock with fencing tokens and ends in the lock its row
stands for: the fences granted are 1, 2, 3, …, and at most one result is
committed, under the last of them, after which nothing happens to the job. -/
theorem job_is_fenced_lock {db : Db} (hfresh : db.Fresh) {job : Job} (hjob : job ∈ db.jobs)
    (ops : List Operation) :
    ∃ row, (run Db.call db ops).jobs.find? job.jobId = some row ∧
      Lock.fresh.replay? (db.jobTrace job.jobId ops) = some row.lock ∧
      (∀ (i : Nat) (fence : Int), (acquired (db.jobTrace job.jobId ops))[i]? = some fence →
        fence = i + 1) ∧
      row.fence = (acquired (db.jobTrace job.jobId ops)).length ∧
      ∀ before (fence : Int) after, db.jobTrace job.jobId ops = before ++ .accept fence :: after →
        after = [] ∧ fence = (acquired before).length := by
  have hstart : job.lock = Lock.fresh := by
    rw [Job.lock, (hfresh.jobs job hjob).state, (hfresh.jobs job hjob).fence]
    rfl
  obtain ⟨row, hrow, hreplay⟩ := run_replays (.of_fresh hfresh) (Table.find?_of_mem hjob) ops
  rw [hstart] at hreplay
  obtain ⟨htokens, hlast⟩ := Lock.acquired_replay hreplay
  refine ⟨row, hrow, hreplay, ?_, ?_, ?_⟩
  · intro i fence hfence
    have htoken := htokens i fence hfence
    simp only [Lock.fresh] at htoken
    omega
  · simp only [Lock.fresh, Job.lock] at hlast
    omega
  · intro before fence after htrace
    rw [htrace] at hreplay
    exact Lock.accept_last hreplay

/-- The job is claimed, reaped and claimed again: the lock is acquired twice and released in
between. -/
theorem job_is_fenced_lock_solo : ∃ row,
    (run Db.call soloDb soloRetry).jobs.find? "job" = some row ∧
      Lock.fresh.replay? (soloDb.jobTrace "job" soloRetry) = some row.lock ∧
      (∀ (i : Nat) (fence : Int), (acquired (soloDb.jobTrace "job" soloRetry))[i]? = some fence →
        fence = i + 1) ∧
      row.fence = (acquired (soloDb.jobTrace "job" soloRetry)).length ∧
      ∀ before (fence : Int) after,
        soloDb.jobTrace "job" soloRetry = before ++ .accept fence :: after →
        after = [] ∧ fence = (acquired before).length :=
  job_is_fenced_lock soloDb_fresh (List.mem_singleton.mpr rfl) soloRetry

example : soloDb.jobTrace "job" soloRetry = [.acquire 1, .release, .acquire 2] := by decide

end VerifierCI
