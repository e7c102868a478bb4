import VerifierCI.Relational.Protected
import VerifierCI.Storage.Panels
import VerifierCI.Storage.Schema

/-! # Artifacts, jobs and attempts under arbitrary statements

The three evidence tables with their constraints and triggers, as the migrations
declare them, and whatever SQL is run on them. A key column that is not declared
NOT NULL may hold NULL, and timestamps are the text that was stored.
-/

namespace VerifierCI

open Python Relational Transition

/-! ## Rows -/

/-- A row of `artifacts`. -/
structure StoredArtifact where
  digest : Option String
  kind : String
  sizeBytes : Int
  storageUri : String
  mediaType : String
  accessPolicy : AccessPolicy
  retentionUntil : Option String
  available : Bool
  createdAt : String
deriving DecidableEq, Repr

/-- A row of `jobs`. -/
structure StoredJob where
  jobId : Option String
  runId : String
  taskKey : String
  caseId : String
  verifierKey : String
  repetition : Int
  state : JobState
  fence : Int
  attemptId : Option String
  leaseToken : Option String
  workerId : Option String
  leaseExpiresMs : Option Int
  attemptsStarted : Int
  selectedAttemptId : Option String
  terminalReason : Option String
deriving DecidableEq, Repr

/-- A row of `evaluation_attempts`. JSON columns hold the decoded value. -/
structure StoredAttempt where
  attemptId : Option String
  jobId : String
  fence : Int
  outcome : Option Outcome
  evaluationValidity : EvaluationValidity
  errorCode : Option String
  disposition : Disposition
  startedAt : String
  finishedAt : Option String
  exitCode : Option Int
  stdoutHash : Option String
  stderrHash : Option String
  reportDigest : Option String
  testCollection : WideJson
  testsPassed : Option Int
  testsFailed : Option Int
  resources : Json
  artifactDigests : Json
  captureTruncated : Bool

/-- Keys stored in the tables that jobs refer to. -/
structure JobParents where
  auditRuns : List String
  tasks : List String
  patchCases : List String
  verifierVersions : List String

structure EvidenceDb where
  artifacts : List StoredArtifact
  jobs : List StoredJob
  attempts : List StoredAttempt
  parents : JobParents

def EvidenceDb.empty (parents : JobParents) : EvidenceDb where
  artifacts := []
  jobs := []
  attempts := []
  parents := parents

/-! ## Artifacts -/

inductive ArtifactColumn where
  | digest
  | kind
  | sizeBytes
  | storageUri
  | mediaType
  | accessPolicy
  | retentionUntil
  | available
  | createdAt
deriving DecidableEq, Repr

/-- The columns `artifacts_no_core_update` is declared on. -/
def ArtifactColumn.isCore : ArtifactColumn → Bool
  | .available => false
  | _ => true

/-- The row after `SET columns = values`. -/
def StoredArtifact.set (row : StoredArtifact) (columns : List ArtifactColumn)
    (values : StoredArtifact) : StoredArtifact where
  digest := if .digest ∈ columns then values.digest else row.digest
  kind := if .kind ∈ columns then values.kind else row.kind
  sizeBytes := if .sizeBytes ∈ columns then values.sizeBytes else row.sizeBytes
  storageUri := if .storageUri ∈ columns then values.storageUri else row.storageUri
  mediaType := if .mediaType ∈ columns then values.mediaType else row.mediaType
  accessPolicy := if .accessPolicy ∈ columns then values.accessPolicy else row.accessPolicy
  retentionUntil := if .retentionUntil ∈ columns then values.retentionUntil else row.retentionUntil
  available := if .available ∈ columns then values.available else row.available
  createdAt := if .createdAt ∈ columns then values.createdAt else row.createdAt

def artifactGuards (columns : List ArtifactColumn) : Guards StoredArtifact where
  beforeInsert _ := none
  beforeUpdate _ _ :=
    if columns.any ArtifactColumn.isCore then
      some "immutable artifact core metadata cannot be updated"
    else none
  beforeDelete row :=
    if row.accessPolicy = .sealed then some "sealed artifacts cannot be deleted" else none
  valid row := 0 ≤ row.sizeBytes
  clashes row other := sameKey row.digest other.digest

/-! ## Jobs -/

def jobGuards : Guards StoredJob where
  beforeInsert _ := none
  beforeUpdate _ _ := none
  beforeDelete _ := none
  valid row := 0 ≤ row.repetition && 0 ≤ row.fence && 0 ≤ row.attemptsStarted
  clashes row other := sameKey row.jobId other.jobId ||
    (row.runId = other.runId && row.taskKey = other.taskKey && row.caseId = other.caseId &&
      row.verifierKey = other.verifierKey && row.repetition = other.repetition)

/-! ## Attempts -/

/-- The table-level CHECK tying validity, outcome and disposition together. -/
def StoredAttempt.statusCheck (row : StoredAttempt) : Bool :=
  match row.evaluationValidity with
  | .pending => row.outcome = none && row.disposition = .active
  | .valid => row.outcome = some .accept || row.outcome = some .reject
  | .invalid => row.outcome = some .invalidEvaluation || row.outcome = some .error ||
      (row.outcome = none && (row.disposition = .abandoned || row.disposition = .stale))

/-- The CHECK constraints of `evaluation_attempts`. -/
def StoredAttempt.check (row : StoredAttempt) : Bool :=
  0 < row.fence && row.testsPassed.all (fun n => 0 ≤ n) && row.testsFailed.all (fun n => 0 ≤ n) &&
    row.testCollection.finite && row.resources.isValid && row.artifactDigests.isValid &&
    row.statusCheck

def attemptGuards : Guards StoredAttempt where
  beforeInsert _ := none
  beforeUpdate old _ :=
    if old.disposition = .authoritative then
      some "authoritative evaluation attempt cannot be updated"
    else none
  beforeDelete row :=
    if row.disposition = .authoritative then
      some "authoritative evaluation attempt cannot be deleted"
    else none
  valid := StoredAttempt.check
  -- the primary key, and the partial index `attempt_authority_idx`
  clashes row other := sameKey row.attemptId other.attemptId ||
    (row.jobId = other.jobId && row.disposition = .authoritative &&
      other.disposition = .authoritative)

/-! ## Foreign keys -/

def EvidenceDb.hasArtifact (db : EvidenceDb) (digest : String) : Bool :=
  db.artifacts.any fun artifact => artifact.digest = some digest

def EvidenceDb.hasJob (db : EvidenceDb) (jobId : String) : Bool :=
  db.jobs.any fun job => job.jobId = some jobId

def EvidenceDb.hasAttempt (db : EvidenceDb) (attemptId : String) : Bool :=
  db.attempts.any fun attempt => attempt.attemptId = some attemptId

def StoredJob.resolves (db : EvidenceDb) (row : StoredJob) : Bool :=
  db.parents.auditRuns.contains row.runId && db.parents.tasks.contains row.taskKey &&
    db.parents.patchCases.contains row.caseId &&
    db.parents.verifierVersions.contains row.verifierKey &&
    row.selectedAttemptId.all db.hasAttempt

def StoredAttempt.resolves (db : EvidenceDb) (row : StoredAttempt) : Bool :=
  db.hasJob row.jobId && row.stdoutHash.all db.hasArtifact && row.stderrHash.all db.hasArtifact &&
    row.reportDigest.all db.hasArtifact

/-- No foreign key is left dangling. -/
def EvidenceDb.resolves (db : EvidenceDb) : Bool :=
  db.jobs.all (StoredJob.resolves db) && db.attempts.all (StoredAttempt.resolves db)

/-! ## Statements -/

/-- A statement on the three tables. WHERE and SET read one row at a time. An upsert is the
INSERT or the UPDATE it comes to. -/
inductive EvidenceStatement where
  | insertArtifacts (onConflict : OnConflict) (rows : List StoredArtifact)
  | updateArtifacts (onConflict : OnConflict) (columns : List ArtifactColumn)
      (values : StoredArtifact → StoredArtifact) (selects : StoredArtifact → Bool)
  | deleteArtifacts (selects : StoredArtifact → Bool)
  | insertJobs (onConflict : OnConflict) (rows : List StoredJob)
  | updateJobs (onConflict : OnConflict) (values : StoredJob → StoredJob)
      (selects : StoredJob → Bool)
  | deleteJobs (selects : StoredJob → Bool)
  | insertAttempts (onConflict : OnConflict) (rows : List StoredAttempt)
  | updateAttempts (onConflict : OnConflict) (values : StoredAttempt → StoredAttempt)
      (selects : StoredAttempt → Bool)
  | deleteAttempts (selects : StoredAttempt → Bool)
  /-- Any statement on the tables that jobs refer to. -/
  | elsewhere (parents : JobParents)

/-- Foreign keys are checked when the statement ends. -/
def EvidenceDb.checked (db : EvidenceDb) : Except String EvidenceDb :=
  if db.resolves then .ok db else .error "FOREIGN KEY constraint failed"

def EvidenceDb.execute (db : EvidenceDb) : EvidenceStatement → Except String EvidenceDb
  | .insertArtifacts onConflict rows => do
      let stored ← (artifactGuards []).insert onConflict db.artifacts rows
      { db with artifacts := stored }.checked
  | .updateArtifacts onConflict columns values selects => do
      let stored ← (artifactGuards columns).updateOr onConflict selects
        (fun row => row.set columns (values row)) db.artifacts
      { db with artifacts := stored }.checked
  | .deleteArtifacts selects => do
      let stored ← (artifactGuards []).delete selects db.artifacts
      { db with artifacts := stored }.checked
  | .insertJobs onConflict rows => do
      let stored ← jobGuards.insert onConflict db.jobs rows
      { db with jobs := stored }.checked
  | .updateJobs onConflict values selects => do
      let stored ← jobGuards.updateOr onConflict selects values db.jobs
      { db with jobs := stored }.checked
  | .deleteJobs selects => do
      let stored ← jobGuards.delete selects db.jobs
      { db with jobs := stored }.checked
  | .insertAttempts onConflict rows => do
      let stored ← attemptGuards.insert onConflict db.attempts rows
      { db with attempts := stored }.checked
  | .updateAttempts onConflict values selects => do
      let stored ← attemptGuards.updateOr onConflict selects values db.attempts
      { db with attempts := stored }.checked
  | .deleteAttempts selects => do
      let stored ← attemptGuards.delete selects db.attempts
      { db with attempts := stored }.checked
  | .elsewhere parents => { db with parents := parents }.checked

/-- A statement that is refused changes nothing. -/
def EvidenceDb.call (db : EvidenceDb) (statement : EvidenceStatement) : EvidenceDb :=
  match db.execute statement with
  | .ok db => db
  | .error _ => db

end VerifierCI
