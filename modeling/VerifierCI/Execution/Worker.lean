import VerifierCI.Execution.Operations
import VerifierCI.Execution.Outcomes
import VerifierCI.Execution.Sandbox
import VerifierCI.Execution.Supervision
import VerifierCI.Storage.Artifacts

/-! # The execution worker

A turn of the worker claims one job, executes it and commits the attempt. What
happens around the modelled code is the turn's own data: the random values and
clock readings, what resolving, copying and patching come to, how the
processes behave, and the calls others make in between.
-/

namespace VerifierCI

open Python

structure Worker where
  workerId : String
  workDir : String
  leaseDurationMs : Int

/-- An exception during preparation: one of the repository's own with its code,
or another one with its text. -/
inductive Raised where
  | verifierCI (code : String)
  | other (message : String)
deriving DecidableEq, Repr

/-- An exception of modelled code. -/
def Raised.ofExc : Exc → Raised
  | .verifierCI _ _ code => .verifierCI code.text
  | _ => .other ""

def Raised.runtimeError : Raised → String
  | .verifierCI code => if code = "" then ErrorCode.patchError.text else code
  | .other message => message

/-- While a job executes, the worker's lease is renewed and others go on. -/
inductive Event where
  | heartbeat (nowMs : Int)
  | call (op : Operation)

/-- The world of one turn. -/
structure Turn where
  /-- Calls of others before the claim. -/
  before : List Operation
  nowMs : Int
  draw : Draw
  uuid : String
  /-- Calls of others between the claim and `mark_running`. -/
  others : List Operation
  runningMs : Int
  snapshot : Except Raised Unit
  diff : Except Raised (List UInt8)
  /-- The manifest as it is resolved, its report path unchecked. -/
  manifest : Except Raised VerifierManifest
  /-- Copying the snapshot into the workspace. -/
  copied : Except Raised Unit
  /-- `git apply`, after the patch was validated. -/
  applied : Except Raised Unit
  /-- The capture directory as the preparation leaves it. -/
  captureDir : DirStatus
  /-- The paths the operating system does not look up in an empty out directory. -/
  refuses : String → Bool
  /-- The processes that a command line starts. -/
  build : List String → Process
  verification : List String → Process
  /-- What is left in the directories by processes that go on after the last command. -/
  lingering : Changes
  meanwhile : List Event
  collectedAt : Datetime
  startedAt : Datetime
  finishedAt : Datetime
  /-- Calls of others between the collection of outputs and `complete`. -/
  late : List Operation
  completeMs : Int
  /-- The attempt's directory can be looked up in the end, to be removed. -/
  removable : Bool

/-! ## Preparation -/

/-- `rep_p.is_absolute() or ".." in rep_p.parts`. -/
def reportPathEscapes (reportPath : String) : Bool :=
  ['/'].isPrefixOf reportPath.toList || (split '/' reportPath.toList).contains ['.', '.']

def checkReportPath (manifest : VerifierManifest) : Except Exc Unit :=
  if reportPathEscapes manifest.reportPath then
    raiseWith .validationError
      ("Report path in verifier manifest must be relative and cannot escape: " ++
        manifest.reportPath)
  else .ok ()

inductive Preparation where
  /-- The manifest is there if it was resolved before the failure. -/
  | failed (manifest : Option VerifierManifest) (raised : Raised)
  | ready (manifest : VerifierManifest)

namespace Turn

def resolve (turn : Turn) : Except Raised (List UInt8 × VerifierManifest) := do
  turn.snapshot
  let diff ← turn.diff
  let manifest ← turn.manifest
  (checkReportPath manifest).mapError Raised.ofExc
  .ok (diff, manifest)

/-- Copy the snapshot and apply the patch, if there is one. -/
def prepareWorkspace (turn : Turn) (diff : List UInt8) (allowedPaths : List String) :
    Except Raised Unit := do
  turn.copied
  if isBlank diff then .ok ()
  else do
    (validatePatch diff allowedPaths).mapError Raised.ofExc
    turn.applied

def preparation (turn : Turn) : Preparation :=
  match turn.resolve with
  | .error raised => .failed none raised
  | .ok (diff, manifest) =>
      match turn.prepareWorkspace diff manifest.allowedEditPaths with
      | .error raised => .failed (some manifest) raised
      | .ok () => .ready manifest

/-- `job.attempt_id or str(uuid.uuid4())`. -/
def attemptId (turn : Turn) (job : Job) : String :=
  (job.attemptId.filter (· ≠ "")).getD turn.uuid

/-- The directories of an attempt before anything has run. -/
def freshFiles (turn : Turn) : AttemptFiles where
  captureDir := turn.captureDir
  place := .log
  entry := fun path =>
    match path with
    | .log _ => .missing
    | .out path => if turn.refuses path then .refusing .refused else .missing

end Turn

def failedCapture (attemptId runtimeError : String) : ExecutionCapture where
  attemptId := attemptId
  exitCode := some 1
  timedOut := false
  oomKilled := some false
  cancelled := false
  buildExitCode := none
  stdoutHash := none
  stderrHash := none
  reportDigest := none
  truncated := false
  resources :=
    { duration := some floatZero
      allocatedCpu := none
      cpuSeconds := none
      peakMemory := none
      modelUsage := none
      estimatedCost := none
      pricingVersion := none
      bytesWritten := none }
  runtimeError := some runtimeError

def buildFailedCapture (attemptId : String) (buildExitCode : Int) : ExecutionCapture where
  attemptId := attemptId
  exitCode := some buildExitCode
  timedOut := false
  oomKilled := some false
  cancelled := false
  buildExitCode := some buildExitCode
  stdoutHash := none
  stderrHash := none
  reportDigest := none
  truncated := false
  resources :=
    { duration := some floatZero
      allocatedCpu := some floatOne
      cpuSeconds := some floatZero
      peakMemory := none
      modelUsage := none
      estimatedCost := none
      pricingVersion := none
      bytesWritten := some 0 }
  runtimeError := none

/-! ## Build and verification -/

section Commands

variable (sha256 : List UInt8 → Digest) (worker : Worker) (turn : Turn) (attemptId : String)

def Worker.sourceDir : String :=
  worker.workDir ++ "/attempts/" ++ attemptId ++ "/source"

def Worker.paths : List (String × String) :=
  [("workspace", worker.sourceDir attemptId), ("verifier", worker.sourceDir attemptId),
    ("out", worker.workDir ++ "/attempts/" ++ attemptId ++ "/out"), ("seed", "0")]

def Worker.resolve (template : List String) (timeoutSeconds : Int) : Except Exc CommandSpec :=
  resolveCommand template (worker.paths attemptId) (some (worker.sourceDir attemptId))
    timeoutSeconds []

/-- The exit code of the build, if there is one, and what it leaves. The
report path is the default one. -/
def runBuild (manifest : VerifierManifest) : Except Exc (Option Int × AttemptFiles) :=
  if manifest.buildCommand = [] then .ok (none, turn.freshFiles)
  else do
    let spec ← worker.resolve attemptId manifest.buildCommand manifest.timeoutSeconds
    let (capture, files) ←
      execute sha256 attemptId (turn.build spec.argv) turn.freshFiles "report.json"
    .ok (capture.exitCode, files)

def runVerification (manifest : VerifierManifest) (files : AttemptFiles) :
    Except Exc (ExecutionCapture × AttemptFiles) := do
  let spec ← worker.resolve attemptId manifest.command manifest.timeoutSeconds
  execute sha256 attemptId (turn.verification spec.argv) files manifest.reportPath

def runCommands (manifest : VerifierManifest) : Except Exc (ExecutionCapture × AttemptFiles) := do
  let (buildExitCode, files) ← runBuild sha256 worker turn attemptId manifest
  match buildExitCode.filter (· ≠ 0) with
  | some code => .ok (buildFailedCapture attemptId code, files)
  | none => runVerification sha256 worker turn attemptId manifest files

/-- The manifest as far as it was resolved, the capture, and the files of an attempt as they
are collected. -/
def executeAttempt : Except Exc (Option VerifierManifest × ExecutionCapture × AttemptFiles) :=
  match turn.preparation with
  | .failed manifest raised =>
      .ok (manifest, failedCapture attemptId raised.runtimeError, turn.freshFiles)
  | .ready manifest => do
      let (capture, files) ← runCommands sha256 worker turn attemptId manifest
      .ok (some manifest, capture, files.change turn.lingering)

end Commands

/-! ## Outputs -/

def maxArtifactBytes : Nat := 16 * 1024 * 1024

/-- The outputs of an attempt after they were stored. -/
structure Collected where
  stdoutHash : Option String
  stderrHash : Option String
  reportDigest : Option String
  reportBytes : Option (List UInt8)
deriving DecidableEq

def Collected.evidenceDigests (collected : Collected) : List String :=
  [collected.stdoutHash, collected.stderrHash, collected.reportDigest].filterMap id

def outputOptions (kind mediaType : String) : PutOptions where
  maxBytes := maxArtifactBytes
  kind := kind
  accessPolicy := .restricted
  mediaType := mediaType

section Collect

variable (sha256 : List UInt8 → Digest) (now : Datetime)

/-- `put_bytes` followed by `_register_artifact`, which together are `put_bytes`
with a connection. -/
def storeOutput (store : ArtifactStore) (content : Option (List UInt8))
    (kind mediaType : String) : Except Exc (Option String) × ArtifactStore :=
  match content with
  | none => (.ok none, store)
  | some bytes =>
      match putBytes sha256 store bytes (outputOptions kind mediaType) now with
      | (.error exc, store) => (.error exc, store)
      | (.ok artifact, store) => (.ok (some artifact.digest.text), store)

def readReportFile (manifest : Option VerifierManifest) (files : AttemptFiles) :
    Except Exc (Option (List UInt8)) :=
  match manifest with
  | none => .ok none
  | some manifest =>
      (files.report manifest.reportPath).content?.map
        (Option.map fun content => content.take maxArtifactBytes)

/-- Read a log and store it, unless it is empty. -/
def collectLog (store : ArtifactStore) (found : Found) (kind : String) :
    Except Exc (Option String) × ArtifactStore :=
  match found.content? with
  | .error exc => (.error exc, store)
  | .ok content =>
      storeOutput sha256 now store (content.filter (· ≠ [])) kind "application/octet-stream"

/-- Collect outputs and persist artifacts. -/
def collect (store : ArtifactStore) (manifest : Option VerifierManifest) (files : AttemptFiles) :
    Except Exc Collected × ArtifactStore :=
  match collectLog sha256 now store (files.log .stdout) "stdout" with
  | (.error exc, store) => (.error exc, store)
  | (.ok stdoutHash, store) =>
      match collectLog sha256 now store (files.log .stderr) "stderr" with
      | (.error exc, store) => (.error exc, store)
      | (.ok stderrHash, store) =>
          match readReportFile manifest files with
          | .error exc => (.error exc, store)
          | .ok reportBytes =>
              match storeOutput sha256 now store reportBytes "report" "application/json" with
              | (.error exc, store) => (.error exc, store)
              | (.ok reportDigest, store) =>
                  (.ok ⟨stdoutHash, stderrHash, reportDigest, reportBytes⟩, store)

end Collect

/-- The capture with its evidence, and its classification. Without a manifest
the worker classifies the runtime error itself. -/
def classify (maxNesting : Nat) (manifest : Option VerifierManifest) (capture : ExecutionCapture)
    (collected : Collected) : Except Exc (ExecutionCapture × ParsedOutcome) :=
  match manifest with
  | some manifest => do
      let capture :=
        { capture with
          stdoutHash := collected.stdoutHash
          stderrHash := collected.stderrHash
          reportDigest := collected.reportDigest }
      let parsed ← parseCapture maxNesting capture manifest collected.reportBytes
      .ok (capture, parsed)
  | none =>
      .ok (capture, runtimeOutcome
        (capture.runtimeError?.getD ErrorCode.infrastructureError.text) collected.evidenceDigests)

/-! ## The lease -/

/-- The worker's lease while its job executes. -/
structure Lease where
  db : Db
  job : Job
  lost : Bool
  beating : Bool

/-- The heartbeat thread stops at its first failure. -/
def Lease.step (extensionMs : Int) (lease : Lease) : Event → Lease
  | .call op => { lease with db := lease.db.call op }
  | .heartbeat nowMs =>
      if lease.beating then
        match heartbeat lease.db lease.job nowMs extensionMs with
        | (.ok job, db) => { lease with db := db, job := job }
        | (.error exc, db) =>
            { lease with db := db, lost := lease.lost || exc.isLeaseLost, beating := false }
      else lease

/-- The lease once execution has ended. The thread is started when the
manifest is resolved. -/
def Turn.hold (worker : Worker) (turn : Turn) (db : Db) (job : Job) : Lease :=
  let beating :=
    match turn.preparation with
    | .failed none _ => false
    | _ => true
  Transition.run (Lease.step worker.leaseDurationMs) ⟨db, job, false, beating⟩ turn.meanwhile

/-! ## One job -/

def Turn.attempt (turn : Turn) (attemptId : String) (lease : Lease) (capture : ExecutionCapture)
    (parsed : ParsedOutcome) (collected : Collected) : EvaluationAttempt where
  attemptId := attemptId
  jobId := lease.job.jobId
  fence := lease.job.fence
  outcome := some parsed.outcome
  evaluationValidity := parsed.evaluationValidity
  errorCode := parsed.errorCode
  disposition := if lease.lost then .stale else .authoritative
  startedAt := turn.startedAt
  finishedAt := some turn.finishedAt
  exitCode := capture.exitCode
  stdoutHash := capture.stdoutHash
  stderrHash := capture.stderrHash
  reportDigest := capture.reportDigest
  testCollection := (parsed.report.map TestReport.collectedIds).getD []
  testsPassed := parsed.report.map fun report => report.results.countP (·.status = .passed)
  testsFailed := parsed.report.map fun report => report.results.countP (·.status = .failed)
  resources := capture.resources
  artifactDigests := collected.evidenceDigests
  captureTruncated := capture.truncated

structure Submission where
  job : Job
  attempt : EvaluationAttempt
  status : CompletionStatus
deriving DecidableEq

section Run

variable (sha256 : List UInt8 → Digest) (maxNesting : Nat) (worker : Worker) (runId : Option String)

/-- Execute a running job up to its completion. -/
def evaluate (turn : Turn) (job : Job) (attemptId : String) (store : ArtifactStore) :
    Except Exc (Job × EvaluationAttempt) × ArtifactStore :=
  let lease := turn.hold worker store.db job
  let store := { store with db := lease.db }
  match executeAttempt sha256 worker turn attemptId with
  | .error exc => (.error exc, store)
  | .ok (manifest, capture, files) =>
      match collect sha256 turn.collectedAt store manifest files with
      | (.error exc, store) => (.error exc, store)
      | (.ok collected, store) =>
          match classify maxNesting manifest capture collected with
          | .error exc => (.error exc, store)
          | .ok (capture, parsed) =>
              (.ok (lease.job, turn.attempt attemptId lease capture parsed collected), store)

def finish (turn : Turn) (job : Job) (attemptId : String) (store : ArtifactStore) :
    Except Exc Submission × ArtifactStore :=
  match evaluate sha256 maxNesting worker turn job attemptId store with
  | (.error exc, store) => (.error exc, store)
  | (.ok (job, attempt), store) =>
      match complete (Transition.run Db.call store.db turn.late) job attempt turn.completeMs with
      | (.error exc, db) => (.error exc, { store with db := db })
      | (.ok status, db) => (.ok ⟨job, attempt, status⟩, { store with db := db })

/-- Claim, execute, and commit a single job from the queue, and remove its directory in any
case. The code returns true for a submission and false when the queue was empty. -/
def runOne (turn : Turn) (store : ArtifactStore) :
    Except Exc (Option Submission) × ArtifactStore :=
  match claim (Transition.run Db.call store.db turn.before) worker.workerId turn.nowMs runId
      worker.leaseDurationMs turn.draw with
  | (.error exc, db) => (.error exc, { store with db := db })
  | (.ok none, db) => (.ok none, { store with db := db })
  | (.ok (some job), db) =>
      match markRunning (Transition.run Db.call db turn.others) job turn.runningMs with
      | (.error exc, db) => (.error exc, { store with db := db })
      | (.ok running, db) =>
          match finish sha256 maxNesting worker turn running (turn.attemptId job)
              { store with db := db } with
          | (.error exc, store) => (.error exc, store)
          | (.ok submission, store) =>
              if turn.removable then (.ok (some submission), store) else (.error .osError, store)

/-- Process jobs until no pending jobs remain, for as many turns as there are
iterations. -/
def runUntilTerminal : List Turn → ArtifactStore → Except Exc Nat × ArtifactStore
  | [], store => (.ok 0, store)
  | turn :: rest, store =>
      match runOne sha256 maxNesting worker runId turn store with
      | (.error exc, store) => (.error exc, store)
      | (.ok none, store) => (.ok 0, store)
      | (.ok (some _), store) =>
          match runUntilTerminal rest store with
          | (.error exc, store) => (.error exc, store)
          | (.ok count, store) => (.ok (count + 1), store)

end Run

end VerifierCI
