import VerifierCI.Execution.RunCalls
import VerifierCI.Transition.Projection

/-! # Runs do not interfere

The queue serves many audit runs from the same tables. What belongs to one run
evolves as if the others were not there: the calls of a session, seen from one
run, are the calls of a session of that run alone.
-/

namespace VerifierCI

open Python Relational Transition

/-! ## Pending jobs are wanted -/

section PendingLive

variable {db db' : Db} {nowMs : Int} {now : Datetime} {maxAttempts : Option Int}

theorem reapRows_auditRuns {rows : List Job} {released : Db}
    (h : rows.foldlM (reapRow maxAttempts now) db = .ok released) :
    released.auditRuns = db.auditRuns := by
  induction rows generalizing db with
  | nil =>
      obtain rfl := Except.ok.inj h
      rfl
  | cons row rest ih =>
      rw [List.foldlM_cons, bind_eq_ok] at h
      obtain ⟨middle, hfirst, hrest⟩ := h
      rw [ih hrest, reapRow_eq hfirst]
      rfl

theorem settleRuns_cancelRequested {runIds : List String}
    (h : runIds.foldlM (fun db runId => updateRunState db runId nowMs) db = .ok db')
    (other : String) : cancelRequested db' other = cancelRequested db other := by
  induction runIds generalizing db with
  | nil =>
      obtain rfl := Except.ok.inj h
      rfl
  | cons runId rest ih =>
      rw [List.foldlM_cons, bind_eq_ok] at h
      obtain ⟨middle, hfirst, hrest⟩ := h
      rw [ih hrest, updateRunState_cancelRequested hfirst]

theorem cancelRequested_of_auditRuns (h : db'.auditRuns = db.auditRuns) (other : String) :
    cancelRequested db' other = cancelRequested db other := by
  simp only [cancelRequested, h]

/-- Only a request to cancel sets a flag, and it leaves no job of its run pending. Any other
call writes the table of runs, if at all, to settle the state of one. -/
theorem Db.PendingLive.flags (h : db.PendingLive) (op : Operation) {job : Job}
    (hjob : job ∈ (db.call op).jobs) (hpending : job.state = .pending) :
    cancelRequested (db.call op) job.runId = cancelRequested db job.runId := by
  cases op with
  | claim workerId nowMs only leaseDurationMs draw =>
      rcases h.claim_cases only with heq | ⟨exc, heq⟩ | ⟨row, granted, db', _, hgrant, heq⟩
      · rw [Db.call, heq]
      · rw [Db.call, heq]
      · obtain ⟨_, started, attempts, _, hsettle⟩ := grant_ok hgrant
        rw [Db.call, heq, updateRunState_cancelRequested hsettle]
        exact cancelRequested_of_auditRuns rfl _
  | markRunning handle nowMs =>
      rcases markRunning_cases db handle nowMs with ⟨row, _, _, heq⟩ | ⟨exc, _, heq⟩
      · rw [Db.call, heq, runningDb]
        split
        · exact cancelRequested_of_auditRuns rfl _
        · rfl
      · rw [Db.call, heq]
  | heartbeat handle nowMs extensionMs =>
      rcases heartbeat_cases db handle nowMs extensionMs with
        ⟨row, _, _, heq⟩ | ⟨row, _, _, heq⟩ | ⟨exc, _, heq⟩
      · rw [Db.call, heq]
        exact cancelRequested_of_auditRuns rfl _
      · rw [Db.call, heq]
      · rw [Db.call, heq]
  | complete handle attempt nowMs =>
      rcases complete_spec db handle attempt nowMs with
        ⟨_, now, _, heq⟩ | ⟨_, finishedAt, after, _, hsettle, heq⟩ | ⟨result, heq, _⟩
      · rw [Db.call, heq]
        exact cancelRequested_of_auditRuns rfl _
      · rw [Db.call, heq, updateRunState_cancelRequested hsettle]
        exact cancelRequested_of_auditRuns rfl _
      · rw [Db.call, heq]
  | reapExpired nowMs maxAttempts =>
      rcases reapExpired_cases db nowMs maxAttempts with
        ⟨now, released, settled, hreleased, hsettled, heq⟩ | ⟨exc, heq⟩
      · rw [Db.call, heq, settleRuns_cancelRequested hsettled]
        exact cancelRequested_of_auditRuns (reapRows_auditRuns hreleased) _
      · rw [Db.call, heq]
  | requestCancel runId nowMs =>
      rcases requestCancel_cases db runId nowMs with ⟨settled, hsettle, heq⟩ | ⟨exc, heq⟩
      · rw [Db.call, heq] at hjob ⊢
        -- the pending jobs of the cancelled run have just been failed
        have hother : job.runId ≠ runId := by
          intro hrun
          obtain ⟨runs, rfl, _⟩ := updateRunState_ok hsettle
          exact failPending_noPending (db.updateRun runId cancelledRun cancelledRun_runId) runId
            job hjob hrun hpending
        have hrow : (cancelledDb db runId).auditRuns.find? job.runId =
            db.auditRuns.find? job.runId := by
          apply Table.find?_update_of_key_ne (f := cancelledRun)
          · exact hother
          · exact cancelledRun_runId
        rw [updateRunState_cancelRequested hsettle]
        simp only [cancelRequested, hrow]
      · rw [Db.call, heq]
  | getJob jobId => rfl

/-- No call leaves a job pending in a cancelled run. The reaper is the only call that makes a
job pending again, and it asks for the flag first. -/
theorem Db.PendingLive.call (h : db.PendingLive) (op : Operation) : (db.call op).PendingLive := by
  have hjobs : ∀ job ∈ (db.call op).jobs, job.state = .pending →
      cancelRequested db job.runId = false := by
    apply (call_moves db op).keeps _ h
    intro row row' hmove hrow
    cases hmove with
    | grant => exact fun heq => by cases heq
    | cancel => exact fun heq => by cases heq
    | start => exact fun heq => by cases heq
    | extend => exact hrow
    | reap outcome hheld hreaps =>
        -- a reaped job goes back to pending only where the run is still wanted
        obtain ⟨nowMs, maxAttempts, _, rfl⟩ := hreaps
        intro hpending
        change (reapedState db row maxAttempts).1 = .pending at hpending
        change cancelRequested db row.runId = false
        cases hflag : cancelRequested db row.runId with
        | false => rfl
        | true =>
            rw [reapedState, hflag, if_pos rfl] at hpending
            cases hpending
    | commit attempt hopen =>
        intro heq
        have hfinished := terminalOf_finished attempt
        rw [show (terminalOf attempt).1 = .pending from heq] at hfinished
        cases hfinished
  intro job hjob hpending
  rw [h.flags op hjob hpending]
  exact hjobs job hjob hpending

end PendingLive

/-! ## Sessions -/

def Session.ofRun (runId : String) (s : Session) : Session where
  db := s.db.ofRun runId
  handles := s.handles.filter fun handle => handle.runId = runId
  granted := s.granted.filter fun handle => handle.runId = runId

/-- A call as one run sees it: a claim that grants one of its jobs, whichever runs it was for,
a call with one of its handles, a request to cancel it, or a reap. -/
def Session.sees (runId : String) (s : Session) : Operation → Option Operation
  | .claim workerId nowMs only leaseDurationMs draw =>
      if (s.db.granted? (.claim workerId nowMs only leaseDurationMs draw)).any
          fun handle => handle.runId = runId then
        some (.claim workerId nowMs (some runId) leaseDurationMs draw)
      else none
  | .markRunning job nowMs => if job.runId = runId then some (.markRunning job nowMs) else none
  | .heartbeat job nowMs extensionMs =>
      if job.runId = runId then some (.heartbeat job nowMs extensionMs) else none
  | .complete job attempt nowMs =>
      if job.runId = runId then some (.complete job attempt nowMs) else none
  | .reapExpired nowMs maxAttempts => some (.reapExpired nowMs maxAttempts)
  | .requestCancel other nowMs =>
      if other = runId then some (.requestCancel other nowMs) else none
  | .getJob jobId =>
      if (getJob s.db jobId).any fun job => job.runId = runId then some (.getJob jobId) else none

/-- What the calls of workers keep, and the runs' independence rests on. -/
structure Session.Separate (s : Session) : Prop where
  reachable : s.db.Reachable
  inv : s.Inv
  handles : ∀ handle ∈ s.handles, s.db.HandleOfRun handle
  live : s.db.PendingLive

section Sessions

variable {s : Session} {runId : String}

/-- Claims sweep cancelled runs, but a cancelled run has nothing pending any more, so no claim
writes to another run than that of its job. -/
theorem Session.Separate.call (h : s.Separate) {op : Operation} (hworker : s.Worker op) :
    (s.call op).Separate where
  reachable := h.reachable.call op
  inv := h.inv.call hworker
  live := h.live.call op
  handles := by
    have hkept : ∀ handle ∈ s.handles, (s.db.call op).HandleOfRun handle := fun handle hhandle =>
      (call_statements s.db op "").1.progress.handleOfRun (h.handles handle hhandle)
    intro handle hhandle
    rcases List.mem_append.mp hhandle with hnew | hold
    · rcases handle?_cases (Option.mem_toList.mp hnew) with
        hgranted | ⟨used, hused, hid, hrun, _, _⟩ | ⟨jobId, rfl, _⟩
      · obtain ⟨_, _, _, _, _, db', _, hloop, heq⟩ := granted?_cases hgranted
        have howned := (claimLoop_not_planned hloop).1
        rwa [← heq] at howned
      · obtain ⟨row, hrow, hrowRun⟩ := hkept used (hworker.holder used hused)
        exact ⟨row, hid ▸ hrow, hrowRun.trans hrun.symm⟩
      · exact absurd hworker id
    · exact hkept handle hold

/-- A worker's submission is for an attempt that is recorded for the job of its handle. -/
theorem Session.Separate.owns (h : s.Separate) {job : Job} {attempt : EvaluationAttempt}
    (hjob : job ∈ s.handles) (hsubmits : Submits job attempt) :
    ∃ row stored, s.db.Owns job row attempt stored := by
  obtain ⟨row, hrow, hrun⟩ := h.handles job hjob
  obtain ⟨l, hl, stored, hstored, hid, _⟩ := h.inv.issued job hjob
  rw [(ledger_eq_some_iff.mp hl).2] at hstored
  obtain ⟨hmem, hstoredJob⟩ := mem_attemptsOf.mp hstored
  have hattempt : attempt.attemptId = stored.attemptId :=
    Option.some.inj (hsubmits.attemptId.symm.trans hid)
  refine ⟨row, stored, hrow, ?_, hstoredJob, hsubmits.jobId, hrun⟩
  rw [hattempt]
  exact Table.find?_of_mem hmem

/-- A call that is seen acts on the part as the call that is seen. -/
theorem Session.call_ofRun_of_seen {op seen : Operation}
    (hdb : (s.db.ofRun runId).call seen = (s.db.call op).ofRun runId)
    (hhandle : (s.db.ofRun runId).handle? seen =
      (s.db.handle? op).filter fun handle => handle.runId = runId)
    (hgranted : (s.db.ofRun runId).granted? seen =
      (s.db.granted? op).filter fun handle => handle.runId = runId) :
    (s.call op).ofRun runId = (s.ofRun runId).call seen := by
  have hlist : ∀ (given : Option Job) (rest : List Job),
      (given.toList ++ rest).filter (fun handle => handle.runId = runId) =
        (given.filter fun handle => handle.runId = runId).toList ++
          rest.filter fun handle => handle.runId = runId := by
    intro given rest
    cases given with
    | none => rfl
    | some handle =>
        rw [List.filter_append]
        by_cases hrun : handle.runId = runId
        · simp [Option.filter, hrun]
        · simp [Option.filter, hrun]
  simp only [Session.call, Session.ofRun, hdb, hlist, hhandle, hgranted]

/-- A call that is not seen leaves the part as it is. -/
theorem Session.call_ofRun_of_unseen {op : Operation}
    (hdb : (s.db.call op).ofRun runId = s.db.ofRun runId)
    (hhandle : ∀ handle, s.db.handle? op = some handle → handle.runId ≠ runId) :
    (s.call op).ofRun runId = s.ofRun runId := by
  have hgiven : ∀ given : Option Job, (∀ handle, given = some handle → handle.runId ≠ runId) →
      ∀ rest : List Job, (given.toList ++ rest).filter (fun handle => handle.runId = runId) =
        rest.filter fun handle => handle.runId = runId := by
    intro given hother rest
    cases given with
    | none => rfl
    | some handle => simp [hother handle rfl]
  have hgranted : ∀ handle, s.db.granted? op = some handle → handle.runId ≠ runId := by
    intro handle hgranted
    cases op with
    | claim => exact hhandle handle hgranted
    | _ => cases hgranted
  simp only [Session.call, Session.ofRun, hdb, hgiven _ hhandle, hgiven _ hgranted]

/-- A claim that ends in another run is not seen; one that ends in the run finds the same job
there, since what comes before it is not of that run. -/
theorem Session.Separate.claim_ofRun (h : s.Separate) (workerId : String) (nowMs : Int)
    (only : Option String) (leaseDurationMs : Int) (draw : Draw) :
    Projects Session.call Session.call (Session.ofRun runId) (Session.sees runId) s
      (.claim workerId nowMs only leaseDurationMs draw) := by
  unfold Projects
  -- No run is cancelled, so a claim grants the first row or changes nothing at all.
  rcases h.live.claim_cases only with heq | ⟨exc, heq⟩ | ⟨row, job, db', hnext, hgrant, heq⟩
  · have hnone : s.db.granted? (.claim workerId nowMs only leaseDurationMs draw) = none := by
      rw [Db.granted?, heq]
      rfl
    rw [Session.sees, hnone]
    apply Session.call_ofRun_of_unseen
    · rw [Db.call, heq]
    · intro handle hhandle
      rw [Db.handle?, hnone] at hhandle
      cases hhandle
  · have hnone : s.db.granted? (.claim workerId nowMs only leaseDurationMs draw) = none := by
      rw [Db.granted?, heq]
      rfl
    rw [Session.sees, hnone]
    apply Session.call_ofRun_of_unseen
    · rw [Db.call, heq]
    · intro handle hhandle
      rw [Db.handle?, hnone] at hhandle
      cases hhandle
  · have hsome : s.db.granted? (.claim workerId nowMs only leaseDurationMs draw) = some job := by
      rw [Db.granted?, heq]
      rfl
    have hrow := Table.find?_of_mem (nextPending_waits hnext).1
    have hjob : job.runId = row.runId := by
      obtain ⟨rfl, _⟩ := grant_ok hgrant
      rfl
    rw [Session.sees, hsome]
    by_cases hrun : row.runId = runId
    · -- the whole queue's first job is the first of its run
      have hpart := ofRun_claim hnext hrun h.live hgrant
      have hpartSome : (s.db.ofRun runId).granted?
          (.claim workerId nowMs (some runId) leaseDurationMs draw) = some job := by
        rw [Db.granted?, hpart]
        rfl
      rw [Option.any_some, if_pos (decide_eq_true (hjob.trans hrun))]
      apply Session.call_ofRun_of_seen
      · rw [Db.call, Db.call, hpart, heq]
      · rw [Db.handle?, Db.handle?, hpartSome, hsome]
        simp [Option.filter, hjob, hrun]
      · rw [hpartSome, hsome]
        simp [Option.filter, hjob, hrun]
    -- the lease belongs to another run, so this one has seen no call
    · have hother : job.runId ≠ runId := hjob.trans_ne hrun
      rw [Option.any_some, if_neg (by simpa using hother)]
      apply Session.call_ofRun_of_unseen
      · rw [Db.call, heq]
        exact ofRun_grant_of_ne hrow hrun hgrant
      · intro handle hhandle
        rw [Db.handle?, hsome] at hhandle
        obtain rfl := Option.some.inj hhandle
        exact hother

/-- What is given out for a handle of the run stays with the run. -/
theorem filter_handle {given : Except Exc Job} {job : Job} (hrun : job.runId = runId)
    (hgiven : ∀ handle, given = .ok handle → handle.runId = job.runId) :
    given.toOption.filter (fun handle => handle.runId = runId) = given.toOption := by
  cases given with
  | error exc => rfl
  | ok handle =>
      have hhandle := (hgiven handle rfl).trans hrun
      simp [Except.toOption, Option.filter, hhandle]

theorem ok_of_toOption {ε α : Type} {given : Except ε α} {a : α} (h : given.toOption = some a) :
    given = .ok a := by
  cases given with
  | error exc => cases h
  | ok b => exact congrArg Except.ok (Option.some.inj h)

theorem markRunning_runId {db : Db} {job handle : Job} {nowMs : Int}
    (h : (markRunning db job nowMs).1 = .ok handle) : handle.runId = job.runId := by
  rcases markRunning_cases db job nowMs with ⟨row, _, _, heq⟩ | ⟨exc, _, heq⟩
  · rw [heq] at h
    obtain rfl := Except.ok.inj h
    rfl
  · rw [heq] at h
    cases h

theorem heartbeat_runId {db : Db} {job handle : Job} {nowMs extensionMs : Int}
    (h : (heartbeat db job nowMs extensionMs).1 = .ok handle) : handle.runId = job.runId := by
  rcases heartbeat_cases db job nowMs extensionMs with
    ⟨row, _, _, heq⟩ | ⟨row, _, _, heq⟩ | ⟨exc, _, heq⟩
  · rw [heq] at h
    obtain rfl := Except.ok.inj h
    rfl
  · rw [heq] at h
    cases h
  · rw [heq] at h
    cases h

/-- Each call of a worker is seen by a run as a call of its own, or not at all. A handle names
one run, and what a call does to the others is nothing. -/
theorem Session.Separate.projects (h : s.Separate) {op : Operation} (hworker : s.Worker op) :
    Projects Session.call Session.call (Session.ofRun runId) (Session.sees runId) s op := by
  -- A call is seen by the run of its handle; the reaper is seen by every run.
  cases op with
  | claim workerId nowMs only leaseDurationMs draw =>
      exact h.claim_ofRun workerId nowMs only leaseDurationMs draw
  | markRunning job nowMs =>
      obtain ⟨row, hrow, hsame⟩ := h.handles job hworker
      simp only [Projects, Session.sees]
      by_cases hrun : job.runId = runId
      · rw [if_pos hrun]
        have hpart := @ofRun_markRunning s.db runId row job nowMs hrow (hsame.trans hrun)
        apply Session.call_ofRun_of_seen
        · rw [Db.call, Db.call, hpart]
        · rw [Db.handle?, Db.handle?, hpart, filter_handle hrun fun _ => markRunning_runId]
        · rfl
      · rw [if_neg hrun]
        apply Session.call_ofRun_of_unseen
        · exact ofRun_markRunning_of_ne hrow (hsame.trans_ne hrun)
        · intro handle hhandle
          exact (markRunning_runId (ok_of_toOption hhandle)).trans_ne hrun
  | heartbeat job nowMs extensionMs =>
      obtain ⟨row, hrow, hsame⟩ := h.handles job hworker
      simp only [Projects, Session.sees]
      by_cases hrun : job.runId = runId
      · rw [if_pos hrun]
        have hpart := @ofRun_heartbeat s.db runId row job nowMs hrow (hsame.trans hrun) extensionMs
        apply Session.call_ofRun_of_seen
        · rw [Db.call, Db.call, hpart]
        · rw [Db.handle?, Db.handle?, hpart, filter_handle hrun fun _ => heartbeat_runId]
        · rfl
      · rw [if_neg hrun]
        apply Session.call_ofRun_of_unseen
        · exact ofRun_heartbeat_of_ne hrow (hsame.trans_ne hrun) extensionMs
        · intro handle hhandle
          exact (heartbeat_runId (ok_of_toOption hhandle)).trans_ne hrun
  | complete job attempt nowMs =>
      obtain ⟨row, stored, howns⟩ := h.owns hworker.1 hworker.2
      simp only [Projects, Session.sees]
      by_cases hrun : job.runId = runId
      · rw [if_pos hrun]
        exact Session.call_ofRun_of_seen (howns.complete_ofRun h.inv.queue hrun) rfl rfl
      · rw [if_neg hrun]
        apply Session.call_ofRun_of_unseen
        · exact howns.complete_ofRun_of_ne hrun
        · intro handle hhandle
          cases hhandle
  | reapExpired nowMs maxAttempts =>
      exact Session.call_ofRun_of_seen (reapExpired_ofRun h.inv.queue h.reachable.activeBare)
        rfl rfl
  | requestCancel other nowMs =>
      simp only [Projects, Session.sees]
      by_cases hrun : other = runId
      · subst hrun
        rw [if_pos rfl]
        exact Session.call_ofRun_of_seen requestCancel_ofRun rfl rfl
      · rw [if_neg hrun]
        apply Session.call_ofRun_of_unseen
        · exact requestCancel_ofRun_of_ne hrun
        · intro handle hhandle
          cases hhandle
  | getJob jobId => exact absurd hworker id

end Sessions

/-- The calls workers make on a queue of many runs come to the same for one run as its own
calls on its own rows: rows, leases and handles, whatever the other runs go through. -/
theorem run_noninterference {db : Db} (hfresh : db.Fresh)
    (hopen : ∀ run ∈ db.auditRuns, run.cancelRequested = false) {ops : List Operation}
    (hworkers : Admits Session.call Session.Worker (.start db) ops) (runId : String) :
    (run Session.call (.start db) ops).ofRun runId =
      run Session.call (.start (db.ofRun runId))
        (seen Session.call (Session.sees runId) (.start db) ops) := by
  have hstart : (Session.start db).Separate := by
    refine ⟨.fresh hfresh, ⟨.of_fresh hfresh, by simp [Session.start], by simp [Session.start]⟩,
      by simp [Session.start], ?_⟩
    intro job _ _
    unfold cancelRequested
    split
    · rfl
    next run hrun => exact hopen run (Table.mem_of_find? hrun)
  exact hworkers.project Session.Separate (fun _ _ h hworker => h.call hworker)
    (fun _ _ h hworker => h.projects hworker) hstart

/-! ## Two runs side by side -/

def neighbourJob : Job :=
  { plannedJob "next" with runId := "neighbour" }

def neighbourDb : Db :=
  { soloDb with
    auditRuns := ⟨[plannedRun, { plannedRun with runId := "neighbour" }], by decide⟩
    jobs := ⟨[plannedJob "job", neighbourJob], by decide⟩ }

theorem neighbourDb_fresh : neighbourDb.Fresh where
  jobs := by
    intro job hjob
    rcases List.mem_cons.mp hjob with rfl | hlast
    · exact plannedJob_fresh "job"
    · obtain rfl := List.mem_singleton.mp hlast
      exact ⟨rfl, rfl, rfl, rfl, rfl, rfl⟩
  attempts := rfl

/-- Both jobs are claimed, the neighbour is cancelled, and all leases lapse. -/
def neighbourOps : List Operation :=
  [soloClaim, .claim "worker" 0 none defaultLeaseMs
    ⟨"other-attempt", "other-token", otherAttempt_ne⟩,
    .requestCancel "neighbour" 1000, .reapExpired 40000 none]

theorem neighbourOps_workers :
    Admits Session.call Session.Worker (.start neighbourDb) neighbourOps :=
  ⟨trivial, trivial, trivial, trivial, trivial⟩

/-- While one run is worked on, its neighbour is cancelled and the leases of both lapse. -/
theorem run_noninterference_neighbour :
    (run Session.call (.start neighbourDb) neighbourOps).ofRun "run" =
      run Session.call (.start (neighbourDb.ofRun "run"))
        (seen Session.call (Session.sees "run") (.start neighbourDb) neighbourOps) :=
  run_noninterference neighbourDb_fresh (by decide) neighbourOps_workers "run"

/-- Neither the neighbour's claim nor its cancellation is seen. -/
example : (seen Session.call (Session.sees "run") (.start neighbourDb) neighbourOps).length =
    2 := by
  decide

end VerifierCI
