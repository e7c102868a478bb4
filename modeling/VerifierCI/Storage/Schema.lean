import VerifierCI.Errors
import VerifierCI.Models.Result
import VerifierCI.Relational.Table

/-! # The operational tables and their constraints

The tables the queue reads and writes, with the columns its statements use.
A statement on `evaluation_attempts` is refused when it would break a CHECK
constraint, a foreign key, the unique authority index or the trigger that
freezes authoritative attempts.
-/

namespace VerifierCI

open Python Relational

/-- A row of `artifacts`. -/
structure ArtifactRow where
  digest : Digest
  kind : String
  sizeBytes : Int
  storageUri : String
  mediaType : String
  accessPolicy : AccessPolicy
  retentionUntil : Option Datetime
  available : Bool
  createdAt : Datetime
deriving DecidableEq, Repr

/-- The primary key of `artifacts`. -/
def ArtifactRow.key (row : ArtifactRow) : String :=
  row.digest.text

/-- A row of `audit_manifests`, as far as the reaper reads it. -/
structure AuditManifestRow where
  manifestHash : String
  maxAttemptsPerJob : Int
deriving DecidableEq, Repr

/-- A row of `audit_runs`. -/
structure AuditRunRow where
  runId : String
  manifestHash : String
  state : RunState
  cancelRequested : Bool
  finishedAt : Option Datetime
deriving DecidableEq, Repr

/-- A row of `evaluation_attempts`. JSON columns hold the decoded value. -/
structure AttemptRow where
  attemptId : String
  jobId : String
  fence : Int
  outcome : Option Outcome
  evaluationValidity : EvaluationValidity
  errorCode : Option String
  disposition : Disposition
  startedAt : Datetime
  finishedAt : Option Datetime
  exitCode : Option Int
  stdoutHash : Option String
  stderrHash : Option String
  reportDigest : Option String
  testCollection : WideJson
  testsPassed : Option Int
  testsFailed : Option Int
  resources : Json
  artifactDigests : Json
  captureTruncated : Bool
deriving Repr

structure Db where
  artifacts : Table ArtifactRow.key
  auditManifests : Table AuditManifestRow.manifestHash
  auditRuns : Table AuditRunRow.runId
  jobs : Table Job.jobId
  evaluationAttempts : Table AttemptRow.attemptId

/-! ## Constraints -/

/-- The table-level CHECK tying validity, outcome and disposition together. -/
def AttemptRow.StatusCheck (row : AttemptRow) : Prop :=
  (row.evaluationValidity = .pending ∧ row.outcome = none ∧ row.disposition = .active) ∨
  (row.evaluationValidity = .valid ∧ (row.outcome = some .accept ∨ row.outcome = some .reject)) ∨
  (row.evaluationValidity = .invalid ∧
    ((row.outcome = some .invalidEvaluation ∨ row.outcome = some .error) ∨
      (row.outcome = none ∧ (row.disposition = .abandoned ∨ row.disposition = .stale))))

instance (row : AttemptRow) : Decidable row.StatusCheck :=
  inferInstanceAs (Decidable (_ ∨ _ ∨ _))

/-- Every CHECK constraint of `evaluation_attempts`. The enumerated columns and
`capture_truncated` are constrained by their types. -/
structure AttemptRow.Check (row : AttemptRow) : Prop where
  fence : 0 < row.fence
  testsPassed : ∀ n ∈ row.testsPassed, 0 ≤ n
  testsFailed : ∀ n ∈ row.testsFailed, 0 ≤ n
  testCollection : row.testCollection.finite = true
  resources : row.resources.isValid = true
  artifactDigests : row.artifactDigests.isValid = true
  status : row.StatusCheck

instance (row : AttemptRow) : Decidable row.Check :=
  decidable_of_iff (0 < row.fence ∧ (∀ n ∈ row.testsPassed, 0 ≤ n) ∧
      (∀ n ∈ row.testsFailed, 0 ≤ n) ∧ row.testCollection.finite = true ∧
      row.resources.isValid = true ∧ row.artifactDigests.isValid = true ∧ row.StatusCheck)
    ⟨fun ⟨h₁, h₂, h₃, h₄, h₅, h₆, h₇⟩ => ⟨h₁, h₂, h₃, h₄, h₅, h₆, h₇⟩,
      fun ⟨h₁, h₂, h₃, h₄, h₅, h₆, h₇⟩ => ⟨h₁, h₂, h₃, h₄, h₅, h₆, h₇⟩⟩

/-- A nullable digest column refers to an existing artifact. -/
def Db.HasArtifact (db : Db) (digest : Option String) : Prop :=
  ∀ d ∈ digest, (db.artifacts.find? d).isSome = true

/-- The digest columns of an attempt meet their foreign keys. -/
def Db.References (db : Db) (row : AttemptRow) : Prop :=
  db.HasArtifact row.stdoutHash ∧ db.HasArtifact row.stderrHash ∧ db.HasArtifact row.reportDigest

instance (db : Db) (digest : Option String) : Decidable (db.HasArtifact digest) :=
  inferInstanceAs (Decidable (∀ d ∈ digest, _))

instance (db : Db) (row : AttemptRow) : Decidable (db.References row) :=
  inferInstanceAs (Decidable (_ ∧ _ ∧ _))

/-- The unique index on `job_id` over authoritative attempts. -/
def AuthorityUnique (attempts : Table AttemptRow.attemptId) : Prop :=
  ((attempts.select fun row => row.disposition = .authoritative).map AttemptRow.jobId).Nodup

instance (attempts : Table AttemptRow.attemptId) : Decidable (AuthorityUnique attempts) :=
  inferInstanceAs (Decidable (List.Nodup _))

/-! ## Statements -/

/-- `UPDATE evaluation_attempts SET f WHERE p`. -/
def Db.updateAttempts (db : Db) (p : AttemptRow → Bool) (f : AttemptRow → AttemptRow)
    (hkey : ∀ row, (f row).attemptId = row.attemptId) : Except Exc Db :=
  let attempts := db.evaluationAttempts.update p f hkey
  if (∀ row ∈ db.evaluationAttempts.select p,
        row.disposition ≠ .authoritative ∧ (f row).Check ∧ db.References (f row)) ∧
      AuthorityUnique attempts then
    .ok { db with evaluationAttempts := attempts }
  else .error .integrityError

/-- `INSERT INTO evaluation_attempts`. -/
def Db.insertAttempt (db : Db) (row : AttemptRow) : Except Exc Db :=
  match db.evaluationAttempts.insert? row with
  | none => .error .integrityError
  | some attempts =>
      if row.Check ∧ (db.jobs.find? row.jobId).isSome = true ∧ db.References row ∧
          AuthorityUnique attempts then
        .ok { db with evaluationAttempts := attempts }
      else .error .integrityError

/-- `UPDATE jobs SET f WHERE p`. -/
def Db.updateJobs (db : Db) (p : Job → Bool) (f : Job → Job)
    (hkey : ∀ row, (f row).jobId = row.jobId) : Db :=
  { db with jobs := db.jobs.update p f hkey }

/-- `UPDATE audit_runs SET f WHERE run_id = ?`. -/
def Db.updateRun (db : Db) (runId : String) (f : AuditRunRow → AuditRunRow)
    (hkey : ∀ row, (f row).runId = row.runId) : Db :=
  { db with auditRuns := db.auditRuns.update (fun row => row.runId = runId) f hkey }

/-- The least and the greatest integer of a 64-bit column. -/
def minInteger : Int := -9223372036854775808

def maxInteger : Int := 9223372036854775807

/-- A nullable integer parameter must fit a 64-bit column. -/
def bindInteger (value : Option Int) : Except Exc Unit :=
  if ∀ n ∈ value, minInteger ≤ n ∧ n ≤ maxInteger then .ok () else .error .overflowError

/-! ## Transactions -/

/-- The body commits on a clean exit and is rolled back when it raises. -/
def transaction {α : Type} (db : Db) (body : Db → Except Exc (α × Db)) : Except Exc α × Db :=
  match body db with
  | .ok (value, db') => (.ok value, db')
  | .error exc => (.error exc, db)

end VerifierCI
