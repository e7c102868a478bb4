import Mathlib.Data.Fintype.EquivFin
import VerifierCI.Execution.ClaimSearch
import VerifierCI.Execution.CompletionOrder
import VerifierCI.Execution.LeaseBoundary

/-! # The queue can always be drained

Whatever workers did before, once their leases have lapsed one more worker can
finish every job: it reaps, and then claims and completes until nothing waits.
The number of waiting jobs bounds the rounds this takes.
-/

namespace VerifierCI

open Python Relational Transition

/-- The calls of a worker that drains the queue at `nowMs`: it hands in what
its work on a job comes to, with the handles it was given. -/
def Session.Drains (workerId : String) (work : Job → EvaluationAttempt) (nowMs : Int)
    (s : Session) : Operation → Prop
  | .reapExpired ms maxAttempts => ms = nowMs ∧ maxAttempts = none
  | .claim worker ms runId leaseDurationMs _ =>
      worker = workerId ∧ ms = nowMs ∧ runId = none ∧ leaseDurationMs = defaultLeaseMs
  | .complete job attempt ms => job ∈ s.handles ∧ attempt = work job ∧ ms = nowMs
  | _ => False

def Db.pendingIds (db : Db) : Finset String :=
  ((db.jobs.select fun job => job.state = .pending).map Job.jobId).toFinset

/-- Nobody holds a lease, and the next attempt of every waiting job can be counted. -/
structure Db.Idle (db : Db) : Prop where
  queue : QueueInv db
  counted : ∀ job ∈ db.jobs, (db.ledgerOf job).Counted
  free : ∀ job ∈ db.jobs, job.state.isHeld = false
  fences : ∀ job ∈ db.jobs, job.state = .pending → job.fence < maxInteger

section Waiting

variable {db db' : Db} {nowMs : Int} {now : Datetime}

theorem mem_pendingIds {jobId : String} :
    jobId ∈ db.pendingIds ↔ ∃ job ∈ db.jobs, job.state = .pending ∧ job.jobId = jobId := by
  simp [Db.pendingIds, Table.mem_select, and_assoc]

/-- No more jobs wait than there were at the start. -/
theorem Evolves.pendingIds_card_le {R : Ledger → Ledger → Prop} (h : Evolves R db db') :
    db'.pendingIds.card ≤ db.jobs.rows.length := by
  have hsubset : db'.pendingIds ⊆ (db.jobs.rows.map Job.jobId).toFinset := by
    intro jobId hmem
    obtain ⟨job, hjob, _, rfl⟩ := mem_pendingIds.mp hmem
    obtain ⟨l, hl⟩ := h.origin _ _ (ledger_of_find? (Table.find?_of_mem hjob))
    have hfind := (ledger_eq_some_iff.mp hl).1
    rw [List.mem_toFinset, ← Table.key_of_find? hfind]
    exact List.mem_map_of_mem (Table.mem_of_find? hfind)
  refine (Finset.card_le_card hsubset).trans ?_
  refine (List.toFinset_card_le _).trans ?_
  rw [List.length_map]

theorem pendingIds_eq_empty (h : ∀ job ∈ db.jobs, job.state ≠ .pending) : db.pendingIds = ∅ := by
  apply Finset.eq_empty_of_forall_notMem
  intro jobId hmem
  obtain ⟨job, hjob, hpending, _⟩ := mem_pendingIds.mp hmem
  exact h job hjob hpending

theorem not_pending_of_card_eq_zero (h : db.pendingIds.card = 0) {job : Job}
    (hjob : job ∈ db.jobs) : job.state ≠ .pending := by
  intro hpending
  have hmem : job.jobId ∈ db.pendingIds := mem_pendingIds.mpr ⟨job, hjob, hpending, rfl⟩
  rw [Finset.card_eq_zero.mp h] at hmem
  simp at hmem

/-- Where nobody holds a lease and nothing waits, every job is finished. -/
theorem Db.Idle.finished (h : db.Idle) (hnone : db.pendingIds.card = 0) {job : Job}
    (hjob : job ∈ db.jobs) : job.state.isFinished = true := by
  have hpending := not_pending_of_card_eq_zero hnone hjob
  have hfree := h.free job hjob
  have habandoned : job.state ≠ .abandoned := (h.queue.of_mem hjob).not_abandoned
  cases hstate : job.state with
  | pending => exact absurd hstate hpending
  | claimed => simp [hstate, JobState.isHeld] at hfree
  | running => simp [hstate, JobState.isHeld] at hfree
  | done => rfl
  | failed => rfl
  | abandoned => exact absurd hstate habandoned

/-- Every time that can be written down leaves room for a default lease. -/
theorem deadline_mem (hclock : isoOfMs nowMs = .ok now) :
    minInteger ≤ nowMs + defaultLeaseMs ∧ nowMs + defaultLeaseMs ≤ maxInteger := by
  have hmem := clock_mem hclock
  unfold minInteger maxInteger defaultLeaseMs
  omega

theorem Db.Idle.leasable (h : db.Idle) (hclock : isoOfMs nowMs = .ok now) {draw : Draw}
    (hdrawn : ∀ row ∈ db.evaluationAttempts, row.attemptId ≠ draw.attemptId) :
    db.Leasable nowMs defaultLeaseMs draw := by
  have hcounters : ∀ job ∈ db.jobs, job.attemptsStarted = job.fence ∧ 0 ≤ job.fence := by
    intro job hjob
    obtain ⟨hstarted, hfence⟩ := (h.queue.shape h.counted).counters job hjob
    rw [hfence] at hstarted ⊢
    exact ⟨hstarted, Int.natCast_nonneg _⟩
  refine ⟨⟨now, hclock⟩, deadline_mem hclock, hdrawn, ?_, ?_, h.queue.authorityUnique⟩
  · intro job hjob hpending
    exact ⟨(hcounters job hjob).2, h.fences job hjob hpending⟩
  · intro job hjob hpending
    rw [(hcounters job hjob).1]
    exact ⟨(hcounters job hjob).2, h.fences job hjob hpending⟩

/-- Identifiers never run out. -/
theorem exists_fresh_draw (db : Db) :
    ∃ draw : Draw, ∀ row ∈ db.evaluationAttempts, row.attemptId ≠ draw.attemptId := by
  obtain ⟨id, hid⟩ := Infinite.exists_notMem_finset
    (insert "" (db.evaluationAttempts.rows.map AttemptRow.attemptId).toFinset)
  rw [Finset.mem_insert, not_or, List.mem_toFinset, List.mem_map] at hid
  refine ⟨⟨id, "token", hid.1⟩, ?_⟩
  intro row hrow hsame
  exact hid.2 ⟨row, hrow, hsame⟩

end Waiting

/-! ## Reaping -/

section Reaping

variable {db : Db} {nowMs : Int} {now : Datetime}

/-- After a reap behind every deadline nobody holds a lease. Every held row is behind its
deadline and is released; all other rows were not held to begin with. -/
theorem reapExpired_idle (hinv : QueueInv db) (hbare : db.ActiveBare)
    (hcounted : ∀ job ∈ db.jobs, (db.ledgerOf job).Counted)
    (hclock : isoOfMs nowMs = .ok now)
    (hlapsed : ∀ job ∈ db.jobs, job.state.isHeld = true → leaseExpired job nowMs = true)
    (hfences : ∀ job ∈ db.jobs, job.fence < maxInteger) :
    (db.call (.reapExpired nowMs none)).Idle := by
  have hreaped : Reaped db (reapExpired db nowMs none).2 nowMs now
      ((expiredRows db nowMs).map Job.jobId) := reapExpired_reaped hinv hbare hclock
  have hevolves := call_evolves hinv (.reapExpired nowMs none)
  -- a row afterwards is a released row, or one that was left alone and so not held
  have hrows : ∀ job' ∈ (reapExpired db nowMs none).2.jobs, ∃ job ∈ db.jobs,
      job'.fence = job.fence ∧ job'.state.isHeld = false := by
    intro job' hjob'
    obtain ⟨job, hjob, hid⟩ := hreaped.added job' hjob'
    have hfind' := Table.find?_of_mem hjob'
    rw [← hid] at hfind'
    by_cases hmem : job.jobId ∈ (expiredRows db nowMs).map Job.jobId
    · obtain ⟨outcome, houtcome, hfind⟩ := hreaped.released job hjob hmem
      obtain rfl := Option.some.inj (hfind'.symm.trans hfind)
      refine ⟨job, hjob, rfl, ?_⟩
      rcases houtcome with h | h <;> simp [releasedRow, h, JobState.isHeld]
    · obtain rfl := Option.some.inj (hfind'.symm.trans (hreaped.kept job hjob hmem))
      refine ⟨job', hjob, rfl, ?_⟩
      rw [Bool.eq_false_iff]
      intro hheld
      exact hmem ((hreaped.mem_iff _).mpr ⟨job', hjob, rfl, hheld, hlapsed job' hjob hheld⟩)
  refine ⟨hevolves.queueInv hinv, hevolves.counted hcounted, ?_, ?_⟩
  · intro job' hjob'
    obtain ⟨_, _, _, hfree⟩ := hrows job' hjob'
    exact hfree
  · intro job' hjob' _
    obtain ⟨job, hjob, hfence, _⟩ := hrows job' hjob'
    rw [hfence]
    exact hfences job hjob

end Reaping

/-! ## One round -/

section Round

variable {db db' : Db} {workerId : String} {nowMs : Int} {now : Datetime} {draw : Draw}

/-- After a claim a row is as it was, cancelled, or the one that was leased. -/
theorem ClaimEffect.mem_cases {expires : Int} {next : Option Job}
    (h : ClaimEffect db db' workerId expires none draw next) {job' : Job}
    (hjob' : job' ∈ db'.jobs) :
    (job' ∈ db.jobs ∧ ¬ db.Swept none next job') ∨ job'.state = .failed ∨
      ∃ row ∈ next, job' = leasedRow row workerId expires draw row := by
  have hid : job'.jobId ∈ db.jobs.rows.map Job.jobId := by
    rw [← h.jobIds]
    exact List.mem_map_of_mem hjob'
  obtain ⟨job, hjob, hsame⟩ := List.mem_map.mp hid
  have hfind' := Table.find?_of_mem hjob'
  rw [← hsame] at hfind'
  by_cases hnext : job ∈ next
  · exact Or.inr (Or.inr ⟨job, hnext, Option.some.inj (hfind'.symm.trans (h.leased job hnext))⟩)
  · by_cases hswept : db.Swept none next job
    · obtain rfl := Option.some.inj (hfind'.symm.trans (h.swept job hswept))
      exact Or.inr (Or.inl rfl)
    · obtain rfl := Option.some.inj (hfind'.symm.trans (h.kept job hjob hnext hswept))
      exact Or.inl ⟨hjob, hswept⟩

/-- A claim that finds nothing to grant leaves nothing waiting. -/
theorem ClaimEffect.not_pending {expires : Int}
    (h : ClaimEffect db db' workerId expires none draw none) : ∀ job ∈ db'.jobs,
      job.state ≠ .pending := by
  intro job hjob hpending
  rcases h.mem_cases hjob with ⟨hold, hnotSwept⟩ | hfailed | ⟨row, hrow, _⟩
  · -- what waits is claimable or belongs to a cancelled run, and that was swept
    have hwaits : job.Waits none := ⟨hpending, by simp⟩
    cases hcancelled : cancelRequested db job.runId with
    | false => exact h.found.none_iff.mp rfl job ⟨hwaits, hold, hcancelled⟩
    | true => exact hnotSwept ⟨hold, hpending, hcancelled, job, hold, rfl, hwaits, by simp⟩
  · rw [hpending] at hfailed
    cases hfailed
  · cases hrow

/-- The claim of an idle queue either leaves nothing waiting or leases one job. -/
theorem Db.Idle.claim (h : db.Idle) (hclock : isoOfMs nowMs = .ok now)
    (hdrawn : ∀ row ∈ db.evaluationAttempts, row.attemptId ≠ draw.attemptId) :
    ∃ next, ClaimEffect db (db.call (.claim workerId nowMs none defaultLeaseMs draw)) workerId
        (nowMs + defaultLeaseMs) none draw next ∧
      db.granted? (.claim workerId nowMs none defaultLeaseMs draw) =
        next.map fun row => grantedJob row workerId (nowMs + defaultLeaseMs) draw := by
  obtain ⟨outcome, hloop⟩ := claimLoop_returns (h.leasable hclock hdrawn)
    (Nat.lt_succ_of_le List.countP_le_length) workerId none
  obtain ⟨result, db'⟩ := outcome
  have hclaim : VerifierCI.claim db workerId nowMs none defaultLeaseMs draw = (.ok result, db') :=
    transaction_ok hloop
  obtain ⟨next, heffect, hresult⟩ := claimLoop_effect hloop
  refine ⟨next, ?_, ?_⟩
  · rw [Db.call, hclaim]
    exact heffect
  · rw [Db.granted?, hclaim]
    exact hresult

/-- The handle of a lease that was just granted is live. -/
theorem leasedRow_live (row : Job) : LiveHandle
    (leasedRow row workerId (nowMs + defaultLeaseMs) draw row)
    (grantedJob row workerId (nowMs + defaultLeaseMs) draw) nowMs where
  fence := rfl
  leaseToken := rfl
  workerId := fun _ => rfl
  attemptId := fun _ => rfl
  expires := by simp [leaseExpired, leasedRow, defaultLeaseMs]
  held := rfl

/-- A committed completion finishes its job and leaves the other rows. -/
theorem complete_rows {job : Job} {attempt : EvaluationAttempt}
    (h : (complete db job attempt nowMs).1 = .ok .committed) :
    ∀ row ∈ (complete db job attempt nowMs).2.jobs,
      (row.jobId ≠ job.jobId ∧ row ∈ db.jobs) ∨
        (row.jobId = job.jobId ∧ row.state.isFinished = true) := by
  rcases complete_spec db job attempt nowMs with
    ⟨_, _, _, heq⟩ | ⟨_, finishedAt, db', _, hrun, heq⟩ | ⟨_, heq, hne⟩
  · rw [heq] at h
    cases h
  · rw [heq]
    obtain ⟨runs, rfl, _⟩ := updateRunState_ok hrun
    intro row hrow
    have hmem : row ∈ db.jobs.update (fun other => other.jobId = job.jobId) (finishedRow attempt)
        (finishedRow_jobId attempt) := hrow
    obtain ⟨old, hold, rfl⟩ := Table.mem_update.mp hmem
    by_cases hid : old.jobId = job.jobId
    · right
      simp only [hid, decide_true, if_true, finishedRow_jobId, true_and]
      rw [finishedRow, terminalOf]
      split <;> rfl
    · left
      simp [hid, hold]
  · rw [heq] at h
    exact absurd h hne

/-- Committing the one leased job of an otherwise idle queue leaves it idle,
with that job waiting no longer. -/
theorem Db.Idle.commit (h : db.Idle) {row : Job} {attempt : EvaluationAttempt}
    (hclaim : ClaimEffect db db' workerId (nowMs + defaultLeaseMs) none draw (some row))
    (hqueue : QueueInv db') (hcounted : ∀ job ∈ db'.jobs, (db'.ledgerOf job).Counted)
    (hcommitted : (complete db' (grantedJob row workerId (nowMs + defaultLeaseMs) draw) attempt
      nowMs).1 = .ok .committed) :
    (db'.call (.complete (grantedJob row workerId (nowMs + defaultLeaseMs) draw) attempt
        nowMs)).Idle ∧
      (db'.call (.complete (grantedJob row workerId (nowMs + defaultLeaseMs) draw) attempt
        nowMs)).pendingIds ⊂ db.pendingIds := by
  have hrow : row ∈ db.jobs := (hclaim.found.claimable row rfl).mem
  have hevolves := call_evolves hqueue
    (.complete (grantedJob row workerId (nowMs + defaultLeaseMs) draw) attempt nowMs)
  -- a row afterwards is an unleased row of before, or finished
  have hrows : ∀ job ∈ (complete db' (grantedJob row workerId (nowMs + defaultLeaseMs) draw) attempt
      nowMs).2.jobs, (job.jobId ≠ row.jobId ∧ job ∈ db.jobs) ∨ job.state.isFinished = true := by
    intro job hjob
    rcases complete_rows hcommitted job hjob with ⟨hne, hold⟩ | ⟨_, hfinished⟩
    · rcases hclaim.mem_cases hold with ⟨hmem, _⟩ | hfailed | ⟨leased, hleased, rfl⟩
      · exact Or.inl ⟨hne, hmem⟩
      · exact Or.inr (JobState.isFinished_iff.mpr (Or.inr hfailed))
      · obtain rfl := Option.some.inj hleased
        exact absurd rfl hne
    · exact Or.inr hfinished
  refine ⟨⟨hevolves.queueInv hqueue, hevolves.counted hcounted, ?_, ?_⟩, ?_⟩
  · intro job hjob
    rcases hrows job hjob with ⟨_, hold⟩ | hfinished
    · exact h.free job hold
    · rcases JobState.isFinished_iff.mp hfinished with hdone | hfailed
      · rw [hdone]
        rfl
      · rw [hfailed]
        rfl
  · intro job hjob hpending
    rcases hrows job hjob with ⟨_, hold⟩ | hfinished
    · exact h.fences job hold hpending
    · rw [hpending] at hfinished
      cases hfinished
  · rw [Finset.ssubset_iff_of_subset]
    · refine ⟨row.jobId, mem_pendingIds.mpr ⟨row, hrow, ?_, rfl⟩, ?_⟩
      · exact (hclaim.found.claimable row rfl).pending
      · intro hmem
        obtain ⟨job, hjob, hpending, hid⟩ := mem_pendingIds.mp hmem
        rcases hrows job hjob with ⟨hne, _⟩ | hfinished
        · exact hne hid
        · rw [hpending] at hfinished
          cases hfinished
    · intro jobId hmem
      obtain ⟨job, hjob, hpending, hid⟩ := mem_pendingIds.mp hmem
      rcases hrows job hjob with ⟨_, hold⟩ | hfinished
      · exact mem_pendingIds.mpr ⟨job, hold, hpending, hid⟩
      · rw [hpending] at hfinished
        cases hfinished

end Round

/-! ## Draining -/

section Draining

variable {s : Session} {workerId : String} {nowMs : Int} {now : Datetime}
  {work : Job → EvaluationAttempt} {artifacts : Table ArtifactRow.key}

/-- What the worker's work comes to can be stored where these artifacts are. -/
def WorkGradable (work : Job → EvaluationAttempt) (nowMs : Int)
    (artifacts : Table ArtifactRow.key) : Prop :=
  ∀ db : Db, db.artifacts = artifacts → ∀ handle : Job, handle.attemptId.isSome = true →
    Submits handle (work handle) ∧ (work handle).Gradable db nowMs

/-- One round: a claim, and the completion of what it granted. A round leaves fewer jobs pending
than it found: the claim takes one away, or sweeps those of cancelled runs. -/
theorem Db.Idle.round (h : s.db.Idle) (hartifacts : s.db.artifacts = artifacts)
    (hclock : isoOfMs nowMs = .ok now) (hwork : WorkGradable work nowMs artifacts)
    (hleft : 0 < s.db.pendingIds.card) :
    ∃ round, Admits Session.call (Session.Drains workerId work nowMs) s round ∧
      round.length ≤ 2 ∧
      ((run Session.call s round).db.Idle ∧
        (run Session.call s round).db.artifacts = artifacts) ∧
      (run Session.call s round).db.pendingIds.card < s.db.pendingIds.card := by
  obtain ⟨draw, hdrawn⟩ := exists_fresh_draw s.db
  obtain ⟨next, heffect, hgranted⟩ :
      ∃ next, ClaimEffect s.db (s.db.call (.claim workerId nowMs none defaultLeaseMs draw)) workerId
          (nowMs + defaultLeaseMs) none draw next ∧
        s.db.granted? (.claim workerId nowMs none defaultLeaseMs draw) =
          next.map fun row => grantedJob row workerId (nowMs + defaultLeaseMs) draw :=
    h.claim hclock hdrawn
  have hevolves := call_evolves h.queue (.claim workerId nowMs none defaultLeaseMs draw)
  have hcounted := hevolves.counted h.counted
  have hqueue := hevolves.queueInv h.queue
  have hsame := hevolves.artifacts.trans hartifacts
  -- Without a grant the claim has swept whatever was pending; with one, the job is done.
  cases next with
  | none =>
      refine ⟨[.claim workerId nowMs none defaultLeaseMs draw], ⟨⟨rfl, rfl, rfl, rfl⟩, trivial⟩,
        by simp, ⟨⟨hqueue, hcounted, ?_, ?_⟩, hsame⟩, ?_⟩
      · intro job hjob
        rcases heffect.mem_cases hjob with ⟨hold, _⟩ | hfailed | ⟨row, hrow, _⟩
        · exact h.free job hold
        · rw [hfailed]
          rfl
        · cases hrow
      · intro job hjob hpending
        exact absurd hpending (heffect.not_pending job hjob)
      · have hempty : (s.db.call (.claim workerId nowMs none defaultLeaseMs draw)).pendingIds = ∅ :=
          pendingIds_eq_empty heffect.not_pending
        rw [run_cons, run_nil, Session.call, hempty, Finset.card_empty]
        exact hleft
  | some row =>
      -- The lease is fresh and nobody acts in between, so the completion commits.
      have hlive : (complete (s.db.call (.claim workerId nowMs none defaultLeaseMs draw))
          (grantedJob row workerId (nowMs + defaultLeaseMs) draw)
          (work (grantedJob row workerId (nowMs + defaultLeaseMs) draw)) nowMs).1 =
            .ok .committed := by
        obtain ⟨hsubmits, hgradable⟩ := hwork _ hsame
          (grantedJob row workerId (nowMs + defaultLeaseMs) draw) rfl
        exact complete_of_live hqueue (heffect.leased row rfl) (leasedRow_live row) hsubmits
          hgradable
      obtain ⟨hidle, hless⟩ := h.commit heffect hqueue hcounted hlive
      have hheld : grantedJob row workerId (nowMs + defaultLeaseMs) draw ∈
          (s.call (.claim workerId nowMs none defaultLeaseMs draw)).handles := by
        apply List.mem_append_left
        rw [Option.mem_toList]
        exact hgranted
      refine ⟨[.claim workerId nowMs none defaultLeaseMs draw, .complete _ (work _) nowMs],
        ⟨⟨rfl, rfl, rfl, rfl⟩, ⟨hheld, rfl, rfl⟩, trivial⟩, by simp, ⟨hidle, ?_⟩, ?_⟩
      · exact (call_evolves hqueue _).artifacts.trans hsame
      · exact Finset.card_lt_card hless

/-- A worker uses the handles it was given. -/
theorem Session.Worker.holder {op : Operation} (h : s.Worker op) : s.Holder op := by
  intro handle hhandle
  cases op with
  | markRunning job ms =>
      obtain rfl := Option.some.inj hhandle
      exact h
  | heartbeat job ms extensionMs =>
      obtain rfl := Option.some.inj hhandle
      exact h
  | complete job attempt ms =>
      obtain rfl := Option.some.inj hhandle
      exact h.1
  | _ => cases hhandle

theorem Session.Drains.holder {op : Operation} (h : s.Drains workerId work nowMs op) :
    s.Holder op := by
  intro handle hhandle
  cases op with
  | complete job attempt ms =>
      obtain rfl := Option.some.inj hhandle
      exact h.1
  | markRunning job ms => exact absurd h id
  | heartbeat job ms extensionMs => exact absurd h id
  | _ => cases hhandle

theorem Session.run_db (s : Session) (ops : List Operation) :
    (run Session.call s ops).db = run Db.call s.db ops := by
  induction ops generalizing s with
  | nil => rfl
  | cons op rest ih => exact ih (s.call op)

/-- Whatever workers did to a fresh queue, once every lease has lapsed one more
worker can finish all jobs with two calls for each, and every run with jobs is
closed then. -/
theorem exists_draining_run {db : Db} (hfresh : db.Fresh)
    (hstarted : ∀ job ∈ db.jobs, job.attemptsStarted = 0) {ops : List Operation}
    (hworkers : Admits Session.call Session.Worker (.start db) ops)
    (hclock : isoOfMs nowMs = .ok now)
    (hlapsed : ∀ job ∈ (run Session.call (.start db) ops).db.jobs, job.state.isHeld = true →
      leaseExpired job nowMs = true)
    (hfences : ∀ job ∈ (run Session.call (.start db) ops).db.jobs, job.fence < maxInteger)
    (hwork : WorkGradable work nowMs (run Session.call (.start db) ops).db.artifacts) :
    ∃ rest, Admits Session.call (Session.Drains workerId work nowMs)
        (run Session.call (.start db) ops) rest ∧
      rest.length ≤ 2 * db.jobs.rows.length + 1 ∧
      (∀ job ∈ (run Session.call (.start db) (ops ++ rest)).db.jobs,
        job.state = .done ∨ job.state = .failed) ∧
      ∀ begun, NotBegun db begun → ∃ closed,
        (run Session.call (.start db) (ops ++ rest)).db.auditRuns.find? begun.runId = some closed ∧
          (closed.state = .complete ∨ closed.state = .cancelled ∨ closed.state = .failed) := by
  have hdb : (run Session.call (.start db) ops).db = run Db.call db ops := Session.run_db _ ops
  have hevolves := run_evolves (QueueInv.of_fresh hfresh) ops
  rw [← hdb] at hevolves
  have hreachable : (run Session.call (.start db) ops).db.Reachable := by
    rw [hdb]
    exact (Db.Reachable.fresh hfresh).run ops
  have hcounted : ∀ job ∈ (run Session.call (.start db) ops).db.jobs,
      ((run Session.call (.start db) ops).db.ledgerOf job).Counted := by
    apply hevolves.counted
    intro job hjob
    exact (hstarted job hjob).trans (hfresh.jobs job hjob).fence.symm
  have hidle := reapExpired_idle hreachable.queueInv hreachable.activeBare hcounted hclock hlapsed
    hfences
  have hreap := call_evolves hreachable.queueInv (.reapExpired nowMs none)
  -- The variant is the number of pending jobs; a round costs two calls at most.
  obtain ⟨rounds, hadmits, hlength, ⟨hlast, _⟩, hzero⟩ := @exists_run_of_variant _ _
    Session.call (Session.Drains workerId work nowMs)
    (fun s => s.db.Idle ∧ s.db.artifacts = (run Session.call (.start db) ops).db.artifacts)
    (fun s => s.db.pendingIds.card) 2
    (fun s h hleft => h.1.round h.2 hclock hwork hleft)
    ((run Session.call (.start db) ops).call (.reapExpired nowMs none))
    ⟨hidle, hreap.artifacts⟩
  have hdrains : Admits Session.call (Session.Drains workerId work nowMs)
      (run Session.call (.start db) ops) (.reapExpired nowMs none :: rounds) :=
    ⟨⟨rfl, rfl⟩, hadmits⟩
  refine ⟨.reapExpired nowMs none :: rounds, hdrains, ?_, ?_, ?_⟩
  · have hwaiting := (hevolves.trans hreap).pendingIds_card_le
    have hrounds : 2 * ((run Session.call (.start db) ops).call
        (.reapExpired nowMs none)).db.pendingIds.card ≤ 2 * db.jobs.rows.length :=
      Nat.mul_le_mul_left 2 hwaiting
    rw [List.length_cons]
    omega
  · rw [run_append, run_cons]
    intro job hjob
    exact JobState.isFinished_iff.mp (hlast.finished hzero hjob)
  · intro begun hbegun
    -- Both halves are calls of holders, which never reopen a run.
    have hholders : Admits Session.call Session.Holder (.start db)
        (ops ++ .reapExpired nowMs none :: rounds) := by
      apply Admits.of_append
      · exact hworkers.of_invariant (fun _ => True) (fun _ _ _ _ => trivial)
          (fun _ _ _ h => h.holder) trivial
      · exact hdrains.of_invariant (fun _ => True) (fun _ _ _ _ => trivial)
          (fun _ _ _ h => h.holder) trivial
    have hinv := hholders.invariant (Session.RunInv begun.runId)
      (fun _ _ h hholder => h.call hholder) hbegun.runInv
    obtain ⟨closed, hclosed, hcore⟩ := hinv.core
    refine ⟨closed, hclosed, RunState.isTerminal_iff.mp ?_⟩
    apply hinv.closed closed hclosed hcore.nonempty
    intro job hjob
    have hmem := (mem_runJobs.mp hjob).1
    rw [run_append, run_cons] at hmem
    exact hlast.finished hzero hmem

end Draining

def acceptingWork (handle : Job) : EvaluationAttempt :=
  acceptingAttempt (handle.attemptId.getD "") handle.jobId handle.fence

theorem acceptingWork_gradable : WorkGradable acceptingWork 40000 .empty := by
  intro db _ handle hattempt
  obtain ⟨attemptId, hid⟩ := Option.isSome_iff_exists.mp hattempt
  refine ⟨⟨rfl, by simp [acceptingWork, acceptingAttempt, hid], rfl⟩, ?_⟩
  refine ⟨⟨rfl, ?_, ?_, ?_, rfl, rfl⟩, Or.inl ⟨rfl, Or.inl rfl⟩, ?_, ?_, ?_⟩
  · simp [acceptingWork, acceptingAttempt, minInteger, maxInteger]
  · simp [acceptingWork, acceptingAttempt, maxInteger]
  · simp [acceptingWork, acceptingAttempt, maxInteger]
  · simp [acceptingWork, acceptingAttempt, Db.HasArtifact]
  · simp [acceptingWork, acceptingAttempt, Db.HasArtifact]
  · simp [acceptingWork, acceptingAttempt, Db.HasArtifact]

/-- The first lease lapses, and another worker finishes the job. -/
theorem exists_draining_run_solo :
    ∃ rest, Admits Session.call (Session.Drains "other" acceptingWork 40000)
        (run Session.call (.start soloDb) [soloClaim]) rest ∧
      rest.length ≤ 2 * soloDb.jobs.rows.length + 1 ∧
      (∀ job ∈ (run Session.call (.start soloDb) ([soloClaim] ++ rest)).db.jobs,
        job.state = .done ∨ job.state = .failed) ∧
      ∀ begun, NotBegun soloDb begun → ∃ closed,
        (run Session.call (.start soloDb) ([soloClaim] ++ rest)).db.auditRuns.find? begun.runId =
            some closed ∧
          (closed.state = .complete ∨ closed.state = .cancelled ∨ closed.state = .failed) :=
  exists_draining_run soloDb_fresh (by decide) ⟨trivial, trivial⟩ rfl (by decide) (by decide)
    acceptingWork_gradable

end VerifierCI
