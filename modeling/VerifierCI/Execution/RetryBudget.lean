import VerifierCI.Execution.Invariants
import VerifierCI.Execution.JobMoves
import VerifierCI.Execution.RunLifecycle
import VerifierCI.Execution.Session

/-! # The retry budget

A claim never looks at the budget of a run. It holds because only the reaper
makes a claimed job pending again, and only while the job has attempts left: a
pending job is always below the budget, so the claim that counts one more
attempt stays within it.
-/

namespace VerifierCI

open Python Relational

/-- The call leaves the budget to the manifests. -/
def Operation.KeepsBudget : Operation → Prop
  | .reapExpired _ maxAttempts => maxAttempts = none
  | _ => True

/-- The manifest of the run allows each of its jobs `limit` attempts. -/
def Db.Budget (db : Db) (runId : String) (limit : Int) : Prop :=
  ∃ run manifest, db.auditRuns.find? runId = some run ∧
    db.auditManifests.find? run.manifestHash = some manifest ∧
    manifest.maxAttemptsPerJob = limit

/-- A job of the run has attempts left whenever it is pending. -/
structure Job.Budgeted (job : Job) (limit : Int) : Prop where
  started : job.attemptsStarted ≤ limit
  pending : job.state = .pending → job.attemptsStarted < limit

/-! ## The budget of a run never changes -/

section Budget

variable {db db' : Db} {runId : String} {limit : Int}

theorem Db.Budget.manifestMaxAttempts (h : db.Budget runId limit) :
    VerifierCI.manifestMaxAttempts db runId = limit := by
  obtain ⟨run, manifest, hrun, hmanifest, hlimit⟩ := h
  simp only [VerifierCI.manifestMaxAttempts, hrun, hmanifest, hlimit]

/-- No statement writes the limit of a run, which stands in its manifest. -/
theorem Db.Statement.budget (h : Db.Statement db db') (hbudget : db.Budget runId limit) :
    db'.Budget runId limit := by
  obtain ⟨run, manifest, hrun, hmanifest, hlimit⟩ := hbudget
  cases h with
  | jobs => exact ⟨run, manifest, hrun, hmanifest, hlimit⟩
  | attempts => exact ⟨run, manifest, hrun, hmanifest, hlimit⟩
  | @settle _ other nowMs h =>
      obtain ⟨runs, hdb, hothers⟩ := updateRunState_ok h
      by_cases hsame : other = runId
      · subst hsame
        obtain ⟨run', hrun', hupdate⟩ := updateRunState_row hrun h
        have hhash : run'.manifestHash = run.manifestHash := by
          cases hupdate <;> rfl
        subst hdb
        exact ⟨run', manifest, hrun', hhash ▸ hmanifest, hlimit⟩
      · subst hdb
        exact ⟨run, manifest, (hothers runId (Ne.symm hsame)).trans hrun, hmanifest, hlimit⟩
  | flag other =>
      have hflagged := @flag_row db runId other run hrun
      obtain ⟨run', hrun', rfl | rfl⟩ := hflagged
      · exact ⟨_, manifest, hrun', hmanifest, hlimit⟩
      · exact ⟨_, manifest, hrun', hmanifest, hlimit⟩

theorem Db.Statements.budget (h : Db.Statements db db') (hbudget : db.Budget runId limit) :
    db'.Budget runId limit := by
  induction h with
  | refl => exact hbudget
  | tail _ hlast ih => exact hlast.budget ih

theorem Db.Budget.call (h : db.Budget runId limit) (op : Operation) :
    (db.call op).Budget runId limit :=
  (call_statements db op runId).1.budget h

end Budget

/-! ## Rows within the budget -/

section Rows

variable {db : Db} {runId : String} {limit : Int}

/-- Each move keeps a job within the budget of its run. Only a claim counts an attempt, and the
reaper sends a job back to pending only while one is left. -/
theorem JobMove.budgeted {op : Operation} {row row' : Job}
    (h : JobMove (db.mayReap op) row row') (hkeeps : op.KeepsBudget)
    (hbudget : db.Budget runId limit) (hbefore : row.runId = runId → row.Budgeted limit)
    (hrun : row'.runId = runId) : row'.Budgeted limit := by
  have hrow : row.runId = runId := h.runId.symm.trans hrun
  obtain ⟨hstarted, hpending⟩ := hbefore hrow
  cases h with
  | grant workerId expires draw hstate =>
      -- the attempt a claim counts is the one that was left
      have hleft := hpending hstate
      exact ⟨Int.add_one_le_of_lt hleft, fun hclaimed => by cases hclaimed⟩
  | cancel => exact ⟨hstarted, fun hfailed => by cases hfailed⟩
  | start => exact ⟨hstarted, fun hrunning => by cases hrunning⟩
  | extend => exact ⟨hstarted, hpending⟩
  | reap outcome hheld hreaps =>
      refine ⟨hstarted, ?_⟩
      obtain ⟨nowMs, maxAttempts, rfl, rfl⟩ := hreaps
      obtain rfl : maxAttempts = none := hkeeps
      subst hrow
      show (reapedState db row none).1 = .pending → row.attemptsStarted < limit
      rw [reapedState, hbudget.manifestMaxAttempts]
      intro hstate
      split at hstate
      next => cases hstate
      next =>
        split at hstate
        next hleft => exact hleft
        next => cases hstate
  | commit attempt hopen =>
      refine ⟨hstarted, ?_⟩
      intro hstate
      have hfinished := terminalOf_finished attempt
      rw [show (terminalOf attempt).1 = .pending from hstate] at hfinished
      cases hfinished

/-- Every job of the run is within the budget of the run. -/
structure Db.Budgeted (db : Db) (runId : String) (limit : Int) : Prop where
  budget : db.Budget runId limit
  jobs : ∀ job ∈ db.jobs, job.runId = runId → job.Budgeted limit

theorem Db.Budgeted.call {op : Operation} (h : db.Budgeted runId limit) (hkeeps : op.KeepsBudget) :
    (db.call op).Budgeted runId limit where
  budget := h.budget.call op
  jobs := (call_moves db op).keeps
    (fun _ _ hmove hbefore => hmove.budgeted hkeeps h.budget hbefore) h.jobs

/-- By induction over the calls; each starts an attempt only where one is left. -/
theorem run_budgeted {ops : List Operation} (h : db.Budgeted runId limit)
    (hkeeps : ∀ op ∈ ops, op.KeepsBudget) :
    (Transition.run Db.call db ops).Budgeted runId limit := by
  induction ops generalizing db with
  | nil => exact h
  | cons op rest ih =>
      apply ih (h.call (hkeeps op List.mem_cons_self))
      exact fun later hlater => hkeeps later (List.mem_cons_of_mem op hlater)

end Rows

/-! ## Grants -/

/-- How often a claim has handed out the job. -/
def Session.grants (s : Session) (jobId : String) : Nat :=
  s.granted.countP fun handle => handle.jobId = jobId

/-- Every grant was counted on the row of the job. -/
def Session.Counts (s : Session) : Prop :=
  ∀ job ∈ s.db.jobs, (s.grants job.jobId : Int) ≤ job.attemptsStarted

section Grants

variable {s : Session} {reaps : Job → JobState × Option String → Prop} {db db' : Db}

/-- Attempts are only ever added to a row. -/
theorem JobsMove.attemptsStarted_le (h : JobsMove reaps db db') {row row' : Job}
    (hrow : db.jobs.find? row.jobId = some row) (hrow' : db'.jobs.find? row.jobId = some row') :
    row.attemptsStarted ≤ row'.attemptsStarted := by
  obtain ⟨later, hlater, hpath⟩ := h.forward _ _ hrow
  obtain rfl := Option.some.inj (hlater.symm.trans hrow')
  have hmono : ∀ first second, JobMove reaps first second →
      row.attemptsStarted ≤ first.attemptsStarted →
      row.attemptsStarted ≤ second.attemptsStarted :=
    fun _ _ hmove hle => hle.trans hmove.attemptsStarted_le
  exact JobsMove.induction hmono hpath le_rfl

/-- The row of a job that a claim hands out counts one attempt more. -/
theorem granted?_attemptsStarted {op : Operation} {handle row row' : Job}
    (hgranted : db.granted? op = some handle) (hrow : db.jobs.find? handle.jobId = some row)
    (hrow' : (db.call op).jobs.find? handle.jobId = some row') :
    row.attemptsStarted + 1 ≤ row'.attemptsStarted := by
  obtain ⟨workerId, nowMs, only, leaseDurationMs, draw, db', rfl, hloop, hcall⟩ :=
    granted?_cases hgranted
  obtain ⟨_, hclaimed⟩ : JobsMove (db.mayReap (.getJob "")) db db' ∧ _ := claimLoop_row hloop
  obtain ⟨swept, pending, hmoves, hpending, _, _, leased, hleased, hcount⟩ := hclaimed handle rfl
  rw [hcall] at hrow'
  obtain rfl := Option.some.inj (hleased.symm.trans hrow')
  have hid : row.jobId = handle.jobId := Table.key_of_find? hrow
  have hle := hmoves.attemptsStarted_le (hid ▸ hrow) (hid ▸ hpending)
  omega

/-- A call that grants a job counts the attempt on the row it writes, and no other call counts
one. -/
theorem Session.Counts.call (h : s.Counts) (op : Operation) : (s.call op).Counts := by
  intro job hjob
  have hmoves := call_moves s.db op
  have hfind : (s.db.call op).jobs.find? job.jobId = some job := Table.find?_of_mem hjob
  obtain ⟨row, hrow⟩ := hmoves.origin _ _ hfind
  have hid : row.jobId = job.jobId := Table.key_of_find? hrow
  have hbefore := h row (Table.mem_of_find? hrow)
  have hle := hmoves.attemptsStarted_le (hid ▸ hrow) (hid ▸ hfind)
  rw [hid] at hbefore
  simp only [Session.grants, Session.call, List.countP_append] at hbefore ⊢
  cases hgranted : s.db.granted? op with
  | none =>
      simp only [Option.toList_none, List.countP_nil, Nat.zero_add]
      omega
  | some handle =>
      by_cases hsame : handle.jobId = job.jobId
      · have hone := granted?_attemptsStarted hgranted (hsame ▸ hrow) (hsame ▸ hfind)
        simp only [Option.toList_some, List.countP_singleton, hsame, decide_true, if_true]
        omega
      · simp only [Option.toList_some, List.countP_singleton, hsame, decide_false,
          Bool.false_eq_true, if_false]
        omega

theorem run_counts (h : s.Counts) (ops : List Operation) :
    (Transition.run Session.call s ops).Counts :=
  Transition.run_invariant Session.Counts (fun _ op h => h.call op) h ops

/-- A session runs the same queue. -/
theorem run_session_db (s : Session) (ops : List Operation) :
    (Transition.run Session.call s ops).db = Transition.run Db.call s.db ops := by
  induction ops generalizing s with
  | nil => rfl
  | cons op rest ih => exact ih (s.call op)

end Grants

/-! ## The law -/

structure WithinBudget (s : Session) (job : Job) (limit : Int) : Prop where
  started : job.attemptsStarted ≤ limit
  attempts : (s.db.evaluationAttempts.select fun row => row.jobId = job.jobId).length ≤ limit
  pending : job.state = .pending → job.attemptsStarted < limit
  grants : (s.grants job.jobId : Int) ≤ limit

/-- In every run from unclaimed jobs that leaves the budget to the manifests,
every job stays within the budget of its run. -/
theorem run_withinBudget {db : Db} (hfresh : db.Fresh)
    (hstarted : ∀ job ∈ db.jobs, job.attemptsStarted = 0) {runId : String} {limit : Int}
    (hbudget : db.Budget runId limit) (hlimit : 1 ≤ limit) {ops : List Operation}
    (hkeeps : ∀ op ∈ ops, op.KeepsBudget) :
    ∀ job ∈ (Transition.run Session.call (.start db) ops).db.jobs, job.runId = runId →
      WithinBudget (Transition.run Session.call (.start db) ops) job limit := by
  intro job hjob hrun
  have hbefore : db.Budgeted runId limit := by
    refine ⟨hbudget, fun other hother _ => ?_⟩
    have hzero := hstarted other hother
    exact ⟨by omega, fun _ => by omega⟩
  have hcounts : (Session.start db).Counts := fun other hother => (hstarted other hother).ge
  have hlater := run_budgeted hbefore hkeeps
  have hshape := run_queueShape hfresh hstarted ops
  have hgrants := run_counts hcounts ops job hjob
  have hdb := run_session_db (.start db) ops
  rw [hdb] at hjob
  obtain ⟨hle, hpending⟩ := hlater.jobs job hjob hrun
  obtain ⟨hfence, hlength⟩ := hshape.counters job hjob
  constructor
  case started => exact hle
  case attempts =>
    rw [hdb]
    exact (hfence.trans hlength).symm.trans_le hle
  case pending => exact hpending
  case grants => exact hgrants.trans hle

/-- Two claims of the job, of the three attempts its manifest allows. -/
theorem run_withinBudget_solo :
    WithinBudget (Transition.run Session.call (.start soloDb) soloRetry) retryHandle 3 := by
  have hjob : retryHandle ∈ (Transition.run Session.call (.start soloDb) soloRetry).db.jobs :=
    List.mem_singleton.mpr rfl
  refine run_withinBudget soloDb_fresh ?_ ⟨plannedRun, _, rfl, rfl, rfl⟩ (by decide) ?_
    retryHandle hjob rfl
  · intro job hjob
    obtain rfl : job = plannedJob "job" := List.mem_singleton.mp hjob
    rfl
  · intro op hop
    simp only [soloRetry, soloClaim, List.mem_cons, List.not_mem_nil, or_false] at hop
    rcases hop with rfl | rfl | rfl
    · exact trivial
    · exact rfl
    · exact trivial

end VerifierCI
