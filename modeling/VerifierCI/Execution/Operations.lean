import VerifierCI.Execution.Refinement
import VerifierCI.Transition.Run

/-! # Runs of the queue

A run is any sequence of calls with any handles, submissions and clock
readings; each call is one serialised transaction. What one call preserves,
`Transition` carries over to every run.
-/

namespace VerifierCI

open Python Relational

/-- A call of the queue: the six transactions, and the lookup of a job. -/
inductive Operation where
  | claim (workerId : String) (nowMs : Int) (runId : Option String) (leaseDurationMs : Int)
      (draw : Draw)
  | markRunning (job : Job) (nowMs : Int)
  | heartbeat (job : Job) (nowMs extensionMs : Int)
  | complete (job : Job) (attempt : EvaluationAttempt) (nowMs : Int)
  | reapExpired (nowMs : Int) (maxAttempts : Option Int)
  | requestCancel (runId : String) (nowMs : Int)
  | getJob (jobId : String)
deriving DecidableEq, Repr

/-- The database after a call, whether it returned or raised. -/
def Db.call (db : Db) : Operation → Db
  | .claim workerId nowMs runId leaseDurationMs draw =>
      (claim db workerId nowMs runId leaseDurationMs draw).2
  | .markRunning job nowMs => (markRunning db job nowMs).2
  | .heartbeat job nowMs extensionMs => (heartbeat db job nowMs extensionMs).2
  | .complete job attempt nowMs => (complete db job attempt nowMs).2
  | .reapExpired nowMs maxAttempts => (reapExpired db nowMs maxAttempts).2
  | .requestCancel runId nowMs => (requestCancel db runId nowMs).2
  | .getJob _ => db

/-- The lease a call grants: what a claim returns. -/
def Db.granted? (db : Db) : Operation → Option Job
  | .claim workerId nowMs runId leaseDurationMs draw =>
      (claim db workerId nowMs runId leaseDurationMs draw).1.toOption.join
  | _ => none

/-- The job handle a call returns, if it returns one. -/
def Db.handle? (db : Db) : Operation → Option Job
  | .claim workerId nowMs runId leaseDurationMs draw =>
      db.granted? (.claim workerId nowMs runId leaseDurationMs draw)
  | .markRunning job nowMs => (markRunning db job nowMs).1.toOption
  | .heartbeat job nowMs extensionMs => (heartbeat db job nowMs extensionMs).1.toOption
  | .getJob jobId => getJob db jobId
  | _ => none

def Operation.handle? : Operation → Option Job
  | .markRunning job _ => some job
  | .heartbeat job _ _ => some job
  | .complete job _ _ => some job
  | _ => none

/-- A call of `complete` that gets as far as committing its attempt. -/
def Db.commitAttempted (db : Db) : Operation → Prop
  | .complete job attempt nowMs => commits db job attempt nowMs = true
  | _ => False

/-! ## What one call does to the ledgers -/

/-- A call that does not commit selects nothing. -/
theorem call_evolves_quiet {db : Db} (hinv : QueueInv db) {op : Operation}
    (hcommit : ¬ db.commitAttempted op) : Evolves Ledger.Quiet db (db.call op) := by
  cases op with
  | claim workerId nowMs runId leaseDurationMs draw =>
      exact claim_evolves db workerId nowMs runId leaseDurationMs draw
  | markRunning job nowMs => exact markRunning_evolves db job nowMs
  | heartbeat job nowMs extensionMs => exact heartbeat_evolves db job nowMs extensionMs
  | complete job attempt nowMs =>
      rcases complete_evolves hinv job attempt nowMs with hquiet | ⟨hcommits, _⟩
      · exact hquiet
      · exact absurd hcommits hcommit
  | reapExpired nowMs maxAttempts => exact reapExpired_evolves hinv nowMs maxAttempts
  | requestCancel runId nowMs => exact requestCancel_evolves db runId nowMs
  | getJob jobId => exact .refl _ db

/-- Each of the calls is a sequence of transitions of the ledgers. -/
theorem call_evolves {db : Db} (hinv : QueueInv db) (op : Operation) :
    Evolves Ledger.Step db (db.call op) := by
  by_cases hcommit : db.commitAttempted op
  · cases op with
    | complete job attempt nowMs =>
        rcases complete_evolves hinv job attempt nowMs with hquiet | ⟨_, hcommitted⟩
        · exact hquiet.step
        · exact hcommitted.mono fun _ _ h => Or.inr ⟨attempt, h⟩
    | _ => exact absurd hcommit id
  · exact (call_evolves_quiet hinv hcommit).step

theorem call_queueInv {db : Db} (hinv : QueueInv db) (op : Operation) : QueueInv (db.call op) :=
  (call_evolves hinv op).queueInv hinv

/-! ## Runs -/

/-- Nothing was ever claimed. -/
structure Db.Fresh (db : Db) : Prop where
  jobs : ∀ job ∈ db.jobs, Ledger.Fresh job
  attempts : db.evaluationAttempts.rows = []

theorem attemptsOf_of_fresh {db : Db} (h : db.Fresh) (jobId : String) :
    db.attemptsOf jobId = [] := by
  rw [Db.attemptsOf, Table.select, h.attempts]
  rfl

/-- A fresh queue has no attempts, and every job in it is pending and was never claimed. -/
theorem QueueInv.of_fresh {db : Db} (h : db.Fresh) : QueueInv db where
  ledgers := by
    intro jobId l hl
    obtain ⟨hjob, hattempts⟩ := ledger_eq_some_iff.mp hl
    obtain ⟨job, attempts⟩ := l
    rw [attemptsOf_of_fresh h] at hattempts
    cases hattempts
    exact .of_fresh (h.jobs job (Table.mem_of_find? hjob))
  owned := by
    intro row hrow
    rw [Table.mem_def, h.attempts] at hrow
    cases hrow

/-- Every run moves every ledger along its transitions. -/
theorem run_evolves {db : Db} (hinv : QueueInv db) (ops : List Operation) :
    Evolves Ledger.Step db (Transition.run Db.call db ops) := by
  induction ops generalizing db with
  | nil => exact .refl _ db
  | cons op rest ih => exact (call_evolves hinv op).trans (ih (call_queueInv hinv op))

theorem run_queueInv {db : Db} (hinv : QueueInv db) (ops : List Operation) :
    QueueInv (Transition.run Db.call db ops) :=
  (run_evolves hinv ops).queueInv hinv

/-- The jobs of a later state are those of the earlier one, further along. -/
theorem Evolves.grows {db db' : Db} (h : Evolves Ledger.Step db db') {jobId : String}
    {l l' : Ledger}
    (hl : db.ledger jobId = some l) (hl' : db'.ledger jobId = some l') : Ledger.Grows l l' := by
  obtain ⟨l'', hl'', hpath⟩ := h.ledger jobId l hl
  obtain rfl : l' = l'' := Option.some.inj (hl'.symm.trans hl'')
  exact Evolves.path_induction (fun _ _ hstep hgrows => hgrows.trans hstep.grows) hpath (.refl l)

/-- A kind of row that no transition creates was there before. -/
theorem Evolves.attempt_old {R : Ledger → Ledger → Prop} {kind : AttemptRow → Prop}
    (hR : ∀ l l', R l l' → ∀ row ∈ l'.attempts, kind row → row ∈ l.attempts) {db db' : Db}
    (h : Evolves R db db') (howned : db'.Owned) {row : AttemptRow}
    (hrow : row ∈ db'.evaluationAttempts) (hkind : kind row) : row ∈ db.evaluationAttempts := by
  obtain ⟨job, hjob⟩ := Option.isSome_iff_exists.mp (howned row hrow)
  have hl' := ledger_of_find? hjob
  obtain ⟨l, hl⟩ := h.origin _ _ hl'
  obtain ⟨l'', hl'', hpath⟩ := h.ledger _ _ hl
  obtain rfl : db'.ledgerOf job = l'' := Option.some.inj (hl'.symm.trans hl'')
  have hstep : ∀ middle next, R middle next →
      (∀ row ∈ middle.attempts, kind row → row ∈ l.attempts) →
      ∀ row ∈ next.attempts, kind row → row ∈ l.attempts :=
    fun middle next hstep ih row hrow hkind => ih row (hR middle next hstep row hrow hkind) hkind
  have hback : ∀ row ∈ (db'.ledgerOf job).attempts, kind row → row ∈ l.attempts :=
    Evolves.path_induction hstep hpath fun _ hmem _ => hmem
  have hmem : row ∈ (db'.ledgerOf job).attempts :=
    mem_attemptsOf.mpr ⟨hrow, (Table.key_of_find? hjob).symm⟩
  have hold := hback row hmem hkind
  rw [(ledger_eq_some_iff.mp hl).2] at hold
  exact (mem_attemptsOf.mp hold).1

/-- A row that is authoritative after a call was so before, unless the call
committed it. -/
theorem authoritative_old {db : Db} (hinv : QueueInv db) {op : Operation} {row : AttemptRow}
    (hrow : row ∈ (db.call op).evaluationAttempts) (hauth : row.disposition = .authoritative) :
    row ∈ db.evaluationAttempts ∨ ∃ job attempt nowMs, op = .complete job attempt nowMs ∧
      row.attemptId = attempt.attemptId ∧ (complete db job attempt nowMs).1 = .ok .committed := by
  have howned := (call_queueInv hinv op).owned
  have hquiet : Evolves Ledger.Quiet db (db.call op) → row ∈ db.evaluationAttempts :=
    fun h => h.attempt_old (fun _ _ hstep _ hmem hkind => hstep.authoritative hmem hkind) howned
      hrow hauth
  by_cases hcommit : db.commitAttempted op
  · cases op with
    | complete job attempt nowMs =>
        rcases complete_of_commits hcommit with
          ⟨finishedAt, db', hcommittable, _, heq⟩ | ⟨_, exc, heq⟩
        · rcases complete_evolves hinv job attempt nowMs with h | ⟨_, h⟩
          · exact Or.inl (hquiet h)
          · by_cases hid : row.attemptId = attempt.attemptId
            · exact Or.inr ⟨job, attempt, nowMs, rfl, hid, by rw [heq]⟩
            · exact Or.inl (h.attempt_old (fun _ _ hstep _ hmem hkind =>
                hstep.authoritative hmem hkind) howned hrow hid)
        · simp only [Db.call, heq] at hrow
          exact Or.inl hrow
    | _ => exact absurd hcommit id
  · exact Or.inl (hquiet (call_evolves_quiet hinv hcommit))

/-! ## A queue of one job -/

def plannedJob (jobId : String) : Job where
  jobId := jobId
  runId := "run"
  taskKey := "task"
  caseId := "case"
  verifierKey := "verifier"
  repetition := 0
  state := .pending
  fence := 0
  attemptId := none
  leaseToken := none
  workerId := none
  leaseExpiresMs := none
  attemptsStarted := 0
  selectedAttemptId := none
  terminalReason := none

def plannedRun : AuditRunRow where
  runId := "run"
  manifestHash := "manifest"
  state := .planned
  cancelRequested := false
  finishedAt := none

/-- One planned run with one planned job. -/
def soloDb : Db where
  artifacts := .empty
  auditManifests := ⟨[⟨"manifest", 3⟩], by decide⟩
  auditRuns := ⟨[plannedRun], by decide⟩
  jobs := ⟨[plannedJob "job"], by decide⟩
  evaluationAttempts := .empty

theorem attempt_ne : "attempt" ≠ "" := by decide

/-- The claim that finds the planned job at time zero. -/
def soloClaim : Operation :=
  .claim "worker" 0 none defaultLeaseMs ⟨"attempt", "token", attempt_ne⟩

/-- The lease lapses, and the job is claimed a second time. -/
def soloRetry : List Operation :=
  [soloClaim, .reapExpired 40000 none,
    .claim "worker" 50000 none defaultLeaseMs ⟨"retry", "retry-token", by decide⟩]

def soloHandle : Job :=
  grantedJob (plannedJob "job") "worker" 30000 ⟨"attempt", "token", attempt_ne⟩

def retryHandle : Job :=
  grantedJob { plannedJob "job" with fence := 1, attemptsStarted := 1 } "worker" 80000
    ⟨"retry", "retry-token", by decide⟩

def noUsage : ResourceUsage where
  duration := none
  allocatedCpu := none
  cpuSeconds := none
  peakMemory := none
  modelUsage := none
  estimatedCost := none
  pricingVersion := none
  bytesWritten := none

def acceptingAttempt (attemptId jobId : String) (fence : Int) : EvaluationAttempt where
  attemptId := attemptId
  jobId := jobId
  fence := fence
  outcome := some .accept
  evaluationValidity := .valid
  errorCode := none
  disposition := .authoritative
  startedAt :=
    { micros := 0
      utcoffset := some 0
      micros_mem := Datetime.zero_mem
      utcoffset_mem := Datetime.utc_mem }
  finishedAt := none
  exitCode := some 0
  stdoutHash := none
  stderrHash := none
  reportDigest := none
  testCollection := []
  testsPassed := some 1
  testsFailed := some 0
  resources := noUsage
  artifactDigests := []
  captureTruncated := false

/-- The one job is claimed and committed, and the run completes. -/
def soloCommit : List Operation :=
  [soloClaim, .complete soloHandle (acceptingAttempt "attempt" "job" 1) 1000]

theorem plannedJob_fresh (jobId : String) : Ledger.Fresh (plannedJob jobId) :=
  ⟨rfl, rfl, rfl, rfl, rfl, rfl⟩

theorem soloDb_fresh : soloDb.Fresh where
  jobs := by
    intro job hjob
    obtain rfl : job = plannedJob "job" := List.mem_singleton.mp hjob
    exact plannedJob_fresh "job"
  attempts := rfl

end VerifierCI
