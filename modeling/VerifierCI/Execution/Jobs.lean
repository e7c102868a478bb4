import Mathlib.Data.List.MinMax
import Mathlib.Data.List.Sort
import Mathlib.Data.String.Basic
import VerifierCI.Storage.Schema

/-! # The lease-fenced job queue

Claims, heartbeats, completions, reaping and cancellation as transactions on
the operational tables. Time is the caller's `now_ms`; the random identifiers
a claim draws are an argument.
-/

namespace VerifierCI

open Python Relational

def defaultLeaseMs : Int := 30000

def maxAttemptsDefault : Int := 3

/-- The states `complete` treats as terminal. -/
def JobState.isTerminal : JobState → Bool
  | .done | .failed | .abandoned => true
  | _ => false

/-- `state in ('DONE', 'FAILED')`. -/
def JobState.isFinished : JobState → Bool
  | .done | .failed => true
  | _ => false

/-- `state in ('CLAIMED', 'RUNNING')`. -/
def JobState.isHeld : JobState → Bool
  | .claimed | .running => true
  | _ => false

theorem JobState.isFinished_iff {state : JobState} :
    state.isFinished = true ↔ state = .done ∨ state = .failed := by
  cases state <;> decide

theorem JobState.isHeld_iff {state : JobState} :
    state.isHeld = true ↔ state = .claimed ∨ state = .running := by
  cases state <;> decide

def RunState.isTerminal : RunState → Bool
  | .complete | .cancelled | .failed => true
  | _ => false

/-- What `datetime.fromtimestamp` raises on a clock outside the years 1 to 9999: the seconds
do not fit `time_t`, the year does not fit the C library's, or it is no year of a datetime.
The bounds are those of a 64-bit platform, up to the rounding of the float division. -/
def clockError (nowMs : Int) : Exc :=
  let seconds := nowMs / 1000
  if seconds < -9223372036854775808 ∨ 9223372036854775807 < seconds then .overflowError
  else if seconds < -67768040609740800 ∨ 67768036191676799 < seconds then .osError
  else .valueError

/-- `datetime.fromtimestamp(now_ms / 1000.0, UTC)`. -/
def isoOfMs (nowMs : Int) : Except Exc Datetime :=
  match Datetime.fromTimestampMs? nowMs with
  | some now => .ok now
  | none => .error (clockError nowMs)

/-- `json.dumps(value)`. A column keeps the tree for the text, so what is left of the call
is its refusal of an integer too long to spell. -/
def dumps (value : Json) : Except Exc Unit :=
  if value.isSpellable then .ok () else .error .valueError

/-- A row of `jobs` carries exactly the fields of a `Job`. -/
def getJob (db : Db) (jobId : String) : Option Job :=
  db.jobs.find? jobId

/-- The digest itself if it is registered, else `None`. -/
def validArtifactDigest (db : Db) : Option String → Option String
  | none => none
  | some digest => if (db.artifacts.find? digest).isSome then some digest else none

/-! ## Quarantined evidence -/

/-- The row a rejected submission leaves behind: its evidence without any
dangling digest, and an outcome that is no grading decision. -/
def quarantine (db : Db) (attempt : EvaluationAttempt) (now : Datetime) (row : AttemptRow) :
    AttemptRow :=
  { row with
    disposition := .stale
    evaluationValidity := .invalid
    outcome :=
      match attempt.outcome with
      | some .invalidEvaluation => some .invalidEvaluation
      | some .error => some .error
      | _ => none
    errorCode := attempt.errorCode
    finishedAt := some (attempt.finishedAt.getD now)
    exitCode := attempt.exitCode
    stdoutHash := validArtifactDigest db attempt.stdoutHash
    stderrHash := validArtifactDigest db attempt.stderrHash
    reportDigest := validArtifactDigest db attempt.reportDigest
    testCollection := WideJson.ofStrings attempt.testCollection
    testsPassed := attempt.testsPassed
    testsFailed := attempt.testsFailed
    resources := attempt.resources.toJson
    artifactDigests := Json.ofStrings
      (attempt.artifactDigests.filter fun d => (validArtifactDigest db (some d)).isSome)
    captureTruncated := attempt.captureTruncated }

@[simp] theorem quarantine_attemptId (db : Db) (attempt : EvaluationAttempt) (now : Datetime)
    (row : AttemptRow) : (quarantine db attempt now row).attemptId = row.attemptId := rfl

/-- `disposition IN ('active', 'abandoned')`. -/
def AttemptRow.isOpen (row : AttemptRow) : Bool :=
  row.disposition = .active || row.disposition = .abandoned

/-- The row a late submission may be written to, under the identity the
submission itself claims. -/
def quarantineTarget (attempt : EvaluationAttempt) (row : AttemptRow) : Bool :=
  row.attemptId = attempt.attemptId && row.jobId = attempt.jobId && row.isOpen

/-- The helper also accepts a bare attempt id, or nothing. -/
def markAttemptStale (db : Db) (attempt : Option (String ⊕ EvaluationAttempt)) (nowMs : Int) :
    Except Exc Db :=
  match attempt with
  | none => .ok db
  | some (.inl attemptId) => do
      let now ← isoOfMs nowMs
      db.updateAttempts (fun row => row.attemptId = attemptId && row.isOpen)
        (fun row => { row with
          disposition := .stale
          evaluationValidity := .invalid
          outcome := none
          finishedAt := some now })
        (fun _ => rfl)
  | some (.inr attempt) => do
      let now ← isoOfMs nowMs
      dumps attempt.resources.toJson
      bindInteger attempt.exitCode
      bindInteger attempt.testsPassed
      bindInteger attempt.testsFailed
      db.updateAttempts (quarantineTarget attempt) (quarantine db attempt now)
        (quarantine_attemptId db attempt now)

/-! ## Run state -/

def startedRun (row : AuditRunRow) : AuditRunRow :=
  { row with state := .running }

@[simp] theorem startedRun_runId (row : AuditRunRow) : (startedRun row).runId = row.runId := rfl

def closedRun (state : RunState) (finishedAt : Datetime) (row : AuditRunRow) : AuditRunRow :=
  { row with state := state, finishedAt := some finishedAt }

@[simp] theorem closedRun_runId (state : RunState) (finishedAt : Datetime) (row : AuditRunRow) :
    (closedRun state finishedAt row).runId = row.runId := rfl

def cancelledRun (row : AuditRunRow) : AuditRunRow :=
  { row with cancelRequested := true }

@[simp] theorem cancelledRun_runId (row : AuditRunRow) : (cancelledRun row).runId = row.runId := rfl

/-- Close the parent run once all its jobs are finished; start it while some
are not. -/
def updateRunState (db : Db) (runId : String) (nowMs : Int) : Except Exc Db :=
  match db.auditRuns.find? runId with
  | none => .ok db
  | some run =>
      let jobs := db.jobs.select fun job => job.runId = runId
      let activeCount := jobs.countP fun job => !job.state.isFinished
      let failCount := jobs.countP fun job => job.state = .failed
      if run.state.isTerminal then .ok db
      else if jobs.length = 0 then .ok db
      else if activeCount > 0 then
        if run.state = .planned then
          .ok (db.updateRun runId startedRun startedRun_runId)
        else .ok db
      else do
        let finishedAt ← isoOfMs nowMs
        let newState : RunState :=
          if run.cancelRequested then .cancelled
          else if failCount > 0 then .failed
          else .complete
        .ok (db.updateRun runId (closedRun newState finishedAt)
          (closedRun_runId newState finishedAt))

/-- `SELECT cancel_requested FROM audit_runs WHERE run_id = ?`, read as a flag. -/
def cancelRequested (db : Db) (runId : String) : Bool :=
  match db.auditRuns.find? runId with
  | none => false
  | some run => run.cancelRequested

def cancelledRow (job : Job) : Job :=
  { job with state := .failed, terminalReason := some "CANCELLED" }

@[simp] theorem cancelledRow_jobId (job : Job) : (cancelledRow job).jobId = job.jobId := rfl

/-- Fail every pending job of a run with reason `CANCELLED`. -/
def failPending (db : Db) (runId : String) : Db :=
  db.updateJobs (fun job => job.runId = runId && job.state = .pending) cancelledRow
    cancelledRow_jobId

/-! ## Claim -/

/-- The random values one claim draws: a UUID and a secret token. -/
structure Draw where
  attemptId : String
  leaseToken : String
  attemptId_ne : attemptId ≠ "" := by decide
deriving DecidableEq, Repr

/-- The pending job with the least id, within one run if a run is given. -/
def nextPending (db : Db) (runId : Option String) : Option Job :=
  (db.jobs.select fun job => job.state = .pending && runId.all (· = job.runId)).argmin Job.jobId

def activeAttempt (jobId : String) (fence : Int) (draw : Draw) (now : Datetime) : AttemptRow where
  attemptId := draw.attemptId
  jobId := jobId
  fence := fence
  outcome := none
  evaluationValidity := .pending
  errorCode := none
  disposition := .active
  startedAt := now
  finishedAt := none
  exitCode := none
  stdoutHash := none
  stderrHash := none
  reportDigest := none
  testCollection := .arr []
  testsPassed := none
  testsFailed := none
  resources := .obj []
  artifactDigests := .arr []
  captureTruncated := false

/-- What the claim of `row` writes to its job: next fence, new attempt, new lease. -/
def leasedRow (row : Job) (workerId : String) (leaseExpiresMs : Int) (draw : Draw) (job : Job) :
    Job :=
  { job with
    state := .claimed
    fence := row.fence + 1
    attemptId := some draw.attemptId
    leaseToken := some draw.leaseToken
    workerId := some workerId
    leaseExpiresMs := some leaseExpiresMs
    attemptsStarted := row.attemptsStarted + 1 }

@[simp] theorem leasedRow_jobId (row : Job) (workerId : String) (leaseExpiresMs : Int)
    (draw : Draw) (job : Job) :
    (leasedRow row workerId leaseExpiresMs draw job).jobId = job.jobId :=
  rfl

def grantedJob (row : Job) (workerId : String) (leaseExpiresMs : Int) (draw : Draw) : Job :=
  { leasedRow row workerId leaseExpiresMs draw row with
    selectedAttemptId := none
    terminalReason := none }

/-- Grant a lease on the pending job `row` that was just read. Inside one
transaction the row is still pending, so the guarded update always hits it. -/
def grant (db : Db) (row : Job) (workerId : String) (nowMs leaseDurationMs : Int) (draw : Draw) :
    Except Exc (Job × Db) := do
  let expires := nowMs + leaseDurationMs
  bindInteger (some (row.fence + 1))
  bindInteger (some expires)
  bindInteger (some (row.attemptsStarted + 1))
  let db := db.updateJobs (fun job => job.jobId = row.jobId && job.state = .pending)
    (leasedRow row workerId expires draw) (leasedRow_jobId row workerId expires draw)
  let now ← isoOfMs nowMs
  let db ← db.insertAttempt (activeAttempt row.jobId (row.fence + 1) draw now)
  let db ← updateRunState db row.runId nowMs
  .ok (grantedJob row workerId expires draw, db)

/-- The `while True` loop of `claim`. A cancelled run met on the way loses all
its pending jobs before the search goes on. -/
def claimLoop (workerId : String) (nowMs : Int) (runId : Option String) (leaseDurationMs : Int)
    (draw : Draw) : Nat → Db → Except Exc (Option Job × Db)
  | 0, _ => .error .outOfFuel
  | fuel + 1, db =>
      match nextPending db runId with
      | none => .ok (none, db)
      | some row =>
          if cancelRequested db row.runId then do
            let db ← updateRunState (failPending db row.runId) row.runId nowMs
            claimLoop workerId nowMs runId leaseDurationMs draw fuel db
          else do
            let (job, db) ← grant db row workerId nowMs leaseDurationMs draw
            .ok (some job, db)

/-- Each turn of the loop but the last fails at least one pending job. -/
def claim (db : Db) (workerId : String) (nowMs : Int) (runId : Option String)
    (leaseDurationMs : Int) (draw : Draw) : Except Exc (Option Job) × Db :=
  transaction db fun db =>
    claimLoop workerId nowMs runId leaseDurationMs draw (db.jobs.rows.length + 1) db

/-! ## Lease holding -/

/-- The fence, token, worker and attempt comparison of `mark_running` and
`heartbeat`. Worker and attempt are compared only if the handle names them. -/
def handleMismatch (row job : Job) : Bool :=
  row.fence ≠ job.fence
    || row.leaseToken ≠ job.leaseToken
    || (job.workerId.isSome && row.workerId ≠ job.workerId)
    || (job.attemptId.isSome && row.attemptId ≠ job.attemptId)

/-- `lease_expires_ms is None or lease_expires_ms <= now_ms`. -/
def leaseExpired (row : Job) (nowMs : Int) : Bool :=
  match row.leaseExpiresMs with
  | none => true
  | some expires => expires ≤ nowMs

/-- The checks shared by `mark_running` and `heartbeat`; they differ in the
message for a job that is not held. -/
def heldRow (db : Db) (job : Job) (nowMs : Int) (notHeld : Job → String) : Except Exc Job :=
  match db.jobs.find? job.jobId with
  | none => raiseWith .leaseLost ("Job '" ++ job.jobId ++ "' not found.")
  | some row =>
      if handleMismatch row job then
        raiseWith .leaseLost
          ("Fence, token, worker, or attempt mismatch for job '" ++ job.jobId ++ "'.")
      else if leaseExpired row nowMs then
        raiseWith .leaseLost ("Lease expired for job '" ++ job.jobId ++ "' (" ++
          strOfOptionInt row.leaseExpiresMs ++ " <= " ++ toString nowMs ++ ").")
      else if !row.state.isHeld then raiseWith .leaseLost (notHeld row)
      else .ok row

def JobState.text : JobState → String
  | .pending => "PENDING"
  | .claimed => "CLAIMED"
  | .running => "RUNNING"
  | .done => "DONE"
  | .failed => "FAILED"
  | .abandoned => "ABANDONED"

def runningRow (row : Job) : Job :=
  { row with state := .running }

@[simp] theorem runningRow_jobId (row : Job) : (runningRow row).jobId = row.jobId := rfl

def extendedRow (expires : Int) (row : Job) : Job :=
  { row with leaseExpiresMs := some expires }

@[simp] theorem extendedRow_jobId (expires : Int) (row : Job) :
    (extendedRow expires row).jobId = row.jobId := rfl

def markRunning (db : Db) (job : Job) (nowMs : Int) : Except Exc Job × Db :=
  transaction db fun db => do
    let row ← heldRow db job nowMs fun row =>
      "Job '" ++ job.jobId ++ "' is in unexpected state '" ++ row.state.text ++ "'."
    let db :=
      if row.state = .claimed then
        db.updateJobs (fun r => r.jobId = job.jobId) runningRow runningRow_jobId
      else db
    .ok ({ job with
      state := .running
      leaseExpiresMs := row.leaseExpiresMs
      attemptsStarted := row.attemptsStarted
      selectedAttemptId := row.selectedAttemptId
      terminalReason := row.terminalReason }, db)

def heartbeat (db : Db) (job : Job) (nowMs extensionMs : Int) : Except Exc Job × Db :=
  transaction db fun db => do
    let row ← heldRow db job nowMs fun row =>
      "Cannot heartbeat non-active job '" ++ job.jobId ++ "' in state '" ++ row.state.text ++ "'."
    let expires := nowMs + extensionMs
    bindInteger (some expires)
    let db := db.updateJobs (fun r => r.jobId = job.jobId) (extendedRow expires)
      (extendedRow_jobId expires)
    .ok ({ job with
      state := row.state
      workerId := row.workerId
      leaseExpiresMs := some expires
      attemptsStarted := row.attemptsStarted
      selectedAttemptId := row.selectedAttemptId
      terminalReason := row.terminalReason }, db)

/-! ## Completion -/

inductive CompletionStatus where
  | committed
  | duplicate
  | stale
deriving DecidableEq, Repr

/-- `tuple(json.loads(text)) == tuple(values)`. -/
def tupleMatches (stored : Json) (values : List String) : Except Exc Bool :=
  match stored.toTuple? with
  | none => .error .typeError
  | some items => .ok (Json.eqItems items (values.map .str))

/-- The same comparison for strings that may hold a lone surrogate. -/
def collectionMatches (stored : WideJson) (values : List WideString) : Except Exc Bool :=
  match stored.toTuple? with
  | none => .error .typeError
  | some items => .ok (WideJson.eqStrings items values)

/-- Does the stored row agree with a resubmitted attempt? Only the listed
fields are compared. -/
def matchesStored (row : AttemptRow) (attempt : EvaluationAttempt) : Except Exc Bool := do
  let sameCollection ← collectionMatches row.testCollection attempt.testCollection
  let sameArtifacts ← tupleMatches row.artifactDigests attempt.artifactDigests
  .ok (row.outcome = attempt.outcome
    && row.evaluationValidity = attempt.evaluationValidity
    && row.errorCode = attempt.errorCode
    && row.exitCode = attempt.exitCode
    && row.stdoutHash = attempt.stdoutHash
    && row.stderrHash = attempt.stderrHash
    && row.reportDigest = attempt.reportDigest
    && sameCollection
    && row.testsPassed = attempt.testsPassed
    && row.testsFailed = attempt.testsFailed
    && row.resources.eq attempt.resources.toJson
    && sameArtifacts
    && row.captureTruncated = attempt.captureTruncated)

def committedRow (attempt : EvaluationAttempt) (now : Datetime) (row : AttemptRow) : AttemptRow :=
  { row with
    outcome := attempt.outcome
    evaluationValidity := attempt.evaluationValidity
    errorCode := attempt.errorCode
    disposition := .authoritative
    finishedAt := some (attempt.finishedAt.getD now)
    exitCode := attempt.exitCode
    stdoutHash := attempt.stdoutHash
    stderrHash := attempt.stderrHash
    reportDigest := attempt.reportDigest
    testCollection := WideJson.ofStrings attempt.testCollection
    testsPassed := attempt.testsPassed
    testsFailed := attempt.testsFailed
    resources := attempt.resources.toJson
    artifactDigests := Json.ofStrings attempt.artifactDigests
    captureTruncated := attempt.captureTruncated }

@[simp] theorem committedRow_attemptId (attempt : EvaluationAttempt) (now : Datetime)
    (row : AttemptRow) : (committedRow attempt now row).attemptId = row.attemptId := rfl

/-- Terminal state and reason of a committed job. An empty error code reads as
missing. -/
def terminalOf (attempt : EvaluationAttempt) : JobState × Option String :=
  if attempt.outcome = some .error then
    (.failed, some (match attempt.errorCode with
      | none | some "" => "EVALUATION_ERROR"
      | some code => code))
  else (.done, none)

def finishedRow (attempt : EvaluationAttempt) (row : Job) : Job :=
  { row with
    state := (terminalOf attempt).1
    selectedAttemptId := some attempt.attemptId
    leaseToken := none
    workerId := none
    leaseExpiresMs := none
    terminalReason := (terminalOf attempt).2 }

@[simp] theorem finishedRow_jobId (attempt : EvaluationAttempt) (row : Job) :
    (finishedRow attempt row).jobId = row.jobId := rfl

/-- The finish time of a commit. The clock is read only for an attempt without
its own. -/
def finishedAtOf (attempt : EvaluationAttempt) (nowMs : Int) : Except Exc Datetime :=
  match attempt.finishedAt with
  | some finished => .ok finished
  | none => isoOfMs nowMs

/-- The writes of case 3 once every identity agrees. -/
def commit (db : Db) (job : Job) (attempt : EvaluationAttempt) (nowMs : Int) : Except Exc Db := do
  let finishedAt ← finishedAtOf attempt nowMs
  dumps attempt.resources.toJson
  bindInteger attempt.exitCode
  bindInteger attempt.testsPassed
  bindInteger attempt.testsFailed
  let db ← db.updateAttempts (fun row => row.attemptId = attempt.attemptId)
    (committedRow attempt finishedAt) (committedRow_attemptId attempt finishedAt)
  let db := db.updateJobs (fun row => row.jobId = job.jobId) (finishedRow attempt)
    (finishedRow_jobId attempt)
  updateRunState db job.runId nowMs

/-- Record a late submission as quarantined evidence. -/
def completeStale (db : Db) (attempt : EvaluationAttempt) (nowMs : Int) :
    Except Exc (CompletionStatus × Db) := do
  let db ← markAttemptStale db (some (.inr attempt)) nowMs
  .ok (.stale, db)

/-- A resubmission of the selected attempt must agree with what is stored. -/
def completeSelected (db : Db) (attempt : EvaluationAttempt) : Except Exc CompletionStatus :=
  match db.evaluationAttempts.find? attempt.attemptId with
  | none => .ok .duplicate
  | some stored =>
      match matchesStored stored attempt with
      | .error exc => .error exc
      | .ok true => .ok .duplicate
      | .ok false => raiseWith .identityConflict
          ("Conflicting attempt content for already-selected attempt '" ++
            attempt.attemptId ++ "'.")

/-- Case 1: the job is already terminal. -/
def completeTerminal (db : Db) (row : Job) (attempt : EvaluationAttempt) (nowMs : Int) :
    Except Exc (CompletionStatus × Db) :=
  if row.selectedAttemptId = some attempt.attemptId then do
    let status ← completeSelected db attempt
    .ok (status, db)
  else completeStale db attempt nowMs

/-- The stored attempt belongs to the handle's job and fence, and so does the
submission. -/
def identityAgrees (db : Db) (job : Job) (attempt : EvaluationAttempt) : Bool :=
  match db.evaluationAttempts.find? attempt.attemptId with
  | none => false
  | some stored =>
      stored.jobId = job.jobId && stored.fence = job.fence
        && attempt.jobId = job.jobId && attempt.fence = job.fence

/-- The lease has lapsed, was granted to someone else, or covers another
attempt. -/
def leaseLapsed (row job : Job) (attempt : EvaluationAttempt) (nowMs : Int) : Bool :=
  leaseExpired row nowMs || (row.fence ≠ job.fence || row.leaseToken ≠ job.leaseToken)
    || row.attemptId ≠ some attempt.attemptId

/-- The handle names a worker, and not the one holding the lease. -/
def workerMismatch (row job : Job) : Bool :=
  job.workerId.isSome && row.workerId ≠ job.workerId

/-- Case 3: live lease, matching fence and token. -/
def completeCommit (db : Db) (job : Job) (attempt : EvaluationAttempt) (nowMs : Int) :
    Except Exc (CompletionStatus × Db) := do
  let db ← commit db job attempt nowMs
  .ok (.committed, db)

/-- Cases 2 and 3: the job is not terminal. -/
def completeLive (db : Db) (row job : Job) (attempt : EvaluationAttempt) (nowMs : Int) :
    Except Exc (CompletionStatus × Db) :=
  if leaseLapsed row job attempt nowMs then completeStale db attempt nowMs
  else if workerMismatch row job then .ok (.stale, db)
  else if !identityAgrees db job attempt then
    raiseWith .identityConflict ("Attempt '" ++ attempt.attemptId ++ "' does not match job '" ++
      job.jobId ++ "' with fence " ++ toString job.fence ++ ".")
  else completeCommit db job attempt nowMs

def completeBody (db : Db) (job : Job) (attempt : EvaluationAttempt) (nowMs : Int) :
    Except Exc (CompletionStatus × Db) :=
  match db.jobs.find? job.jobId with
  | none => raiseWith .infrastructureError ("Job '" ++ job.jobId ++ "' not found.")
  | some row =>
      if row.state.isTerminal then completeTerminal db row attempt nowMs
      else completeLive db row job attempt nowMs

def complete (db : Db) (job : Job) (attempt : EvaluationAttempt) (nowMs : Int) :
    Except Exc CompletionStatus × Db :=
  transaction db fun db => completeBody db job attempt nowMs

/-! ## Reaping -/

/-- The retry budget of a run: its manifest's, or the default. The code reads
it once for each run of a reap; the loop never writes what it is read from. -/
def manifestMaxAttempts (db : Db) (runId : String) : Int :=
  match db.auditRuns.find? runId with
  | none => maxAttemptsDefault
  | some run =>
      match db.auditManifests.find? run.manifestHash with
      | none => maxAttemptsDefault
      | some manifest => manifest.maxAttemptsPerJob

def reapedState (db : Db) (row : Job) (maxAttempts : Option Int) : JobState × Option String :=
  if cancelRequested db row.runId then (.failed, some "CANCELLED")
  else if row.attemptsStarted < maxAttempts.getD (manifestMaxAttempts db row.runId) then
    (.pending, none)
  else (.failed, some "LEASE_EXPIRED")

def abandonedRow (now : Datetime) (row : AttemptRow) : AttemptRow :=
  { row with
    disposition := .abandoned
    evaluationValidity := .invalid
    outcome := none
    finishedAt := some now }

@[simp] theorem abandonedRow_attemptId (now : Datetime) (row : AttemptRow) :
    (abandonedRow now row).attemptId = row.attemptId := rfl

def abandonAttempt (db : Db) (attemptId : Option String) (now : Datetime) : Except Exc Db :=
  match attemptId with
  | none | some "" => .ok db
  | some attemptId =>
      db.updateAttempts (fun row => row.attemptId = attemptId && row.disposition = .active)
        (abandonedRow now) (abandonedRow_attemptId now)

def releasedRow (outcome : JobState × Option String) (job : Job) : Job :=
  { job with
    state := outcome.1
    attemptId := none
    leaseToken := none
    workerId := none
    leaseExpiresMs := none
    terminalReason := outcome.2 }

@[simp] theorem releasedRow_jobId (outcome : JobState × Option String) (job : Job) :
    (releasedRow outcome job).jobId = job.jobId := rfl

def reapRow (maxAttempts : Option Int) (now : Datetime) (db : Db) (row : Job) : Except Exc Db := do
  let db ← abandonAttempt db row.attemptId now
  .ok (db.updateJobs (fun job => job.jobId = row.jobId)
    (releasedRow (reapedState db row maxAttempts))
    (releasedRow_jobId (reapedState db row maxAttempts)))

/-- The held jobs whose lease has lapsed, by id. -/
def expiredRows (db : Db) (nowMs : Int) : List Job :=
  (db.jobs.select fun job => job.state.isHeld && job.leaseExpiresMs.isSome
    && leaseExpired job nowMs).insertionSort fun a b => a.jobId ≤ b.jobId

/-- The set of affected runs is visited in an order of the interpreter's
choosing; the model uses the order of first occurrence. -/
def reapExpired (db : Db) (nowMs : Int) (maxAttempts : Option Int) :
    Except Exc (List String) × Db :=
  transaction db fun db => do
    bindInteger (some nowMs)
    let rows := expiredRows db nowMs
    let now ← isoOfMs nowMs
    let db ← rows.foldlM (reapRow maxAttempts now) db
    let affectedRuns := (rows.map Job.runId).dedup
    let db ← affectedRuns.foldlM (fun db runId => updateRunState db runId nowMs) db
    .ok (rows.map Job.jobId, db)

/-! ## Cancellation -/

def requestCancel (db : Db) (runId : String) (nowMs : Int) : Except Exc Unit × Db :=
  transaction db fun db => do
    let db := db.updateRun runId cancelledRun cancelledRun_runId
    let db ← updateRunState (failPending db runId) runId nowMs
    .ok ((), db)

end VerifierCI
