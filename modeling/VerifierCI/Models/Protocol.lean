import VerifierCI.Models.Result

/-! # Plan and matrix records

The records planner and reducer exchange: pins and manifests on the way in,
cells and matrices on the way out.
-/

namespace VerifierCI

open Python

/-- Task version and execution pins for an audit run. -/
structure TaskPin where
  taskKey : String
  taskVersion : String
  contractHash : String
  repositorySnapshotDigest : String
  environmentId : String
  environmentImageDigest : Option String
  verifierBaselineVersion : String
  verifierCandidateVersion : String
  baselineManifestHash : String
  candidateManifestHash : String
  caseIds : List String
deriving DecidableEq, Repr

/-- Parsed CLI options, as far as the planner reads them. -/
structure AuditOptions where
  benchmarkFile : Option String
  repetitions : Int
  maxAttempts : Int
  parentRunId : Option String
  maxJobs : Int
  timeoutSeconds : Int
  seed : Option Int

/-- A frozen patch panel, as far as the planner reads it. -/
structure PatchPanel where
  panelKey : String
  membershipDigest : String

/-- Immutable audit configuration and planned execution inventory. -/
structure AuditManifest where
  manifestHash : String
  runId : String
  benchmarkVersion : String
  taskPins : List TaskPin
  panelKey : String
  adjudicationVersion : String
  evaluationHarnessVersion : String
  configHash : String
  policyHash : String
  analysisPlanHash : Option String
  timestamp : Datetime
  hostFingerprint : String
  seed : Option Int
  agentVersion : Option String
  modelIdentifier : Option String
  maxRepetitions : Int
  maxAttemptsPerJob : Int
  timeoutSeconds : Int
  resourcePolicy : String
  expansionDigest : String
  parentRunId : Option String
deriving DecidableEq, Repr

inductive Label where
  | valid
  | invalid
  | unresolved
deriving DecidableEq, Repr

inductive Role where
  | challenge
  | reference
  | noop
deriving DecidableEq, Repr

/-- A review decision, as far as the matrix shows it, and the one it replaces. -/
structure Adjudication where
  adjudicationId : String
  caseId : String
  label : Label
  supersedesId : Option String

/-- Patch production category. -/
inductive PatchSource where
  | human
  | agent
  | mutation
  | reference
  | noop
deriving DecidableEq, Repr

structure PatchCase where
  caseId : String
  taskKey : String
  diffDigest : String
  baseSnapshotDigest : String
  source : PatchSource
  sourceRunId : Option String
  parentCaseIds : List String
  familyId : String
  role : Role
  provenanceDigest : String
  licence : String
  createdAt : Datetime
deriving DecidableEq, Repr

/-- The aggregated observation of a cell. -/
inductive CellOutcome where
  | accept
  | reject
  | invalidEvaluation
  | flaky
  | error
deriving DecidableEq, Repr

inductive CellValidity where
  | valid
  | invalid
deriving DecidableEq, Repr

/-- The state of one planned repetition. -/
inductive RepetitionOutcome where
  | pending
  | completed (outcome : Outcome)
deriving DecidableEq, Repr

/-- Aggregated outcome of all planned repetitions for a (task, case, verifier) cell. -/
structure AcceptanceCell where
  taskKey : String
  repositoryId : String
  caseId : String
  verifierKey : String
  adjudicationId : String
  label : Label
  role : Role
  outcome : CellOutcome
  evaluationValidity : CellValidity
  plannedRepetitions : Int
  selectedAttemptIds : List String
  excludedAttemptIds : List String
  repetitionOutcomes : List RepetitionOutcome
  diagnosticCodes : List String
deriving DecidableEq, Repr

/-- Cell-aggregated acceptance matrix for an audit run. -/
structure AcceptanceMatrix where
  matrixId : String
  runId : String
  reducerVersion : String
  cells : List AcceptanceCell
  complete : Bool
  sourceAttemptsDigest : String
  createdAt : Datetime
deriving DecidableEq, Repr

/-! ## Texts of the enumerations -/

def Outcome.text : Outcome → String
  | .accept => "accept"
  | .reject => "reject"
  | .invalidEvaluation => "invalid_evaluation"
  | .error => "error"

def EvaluationValidity.text : EvaluationValidity → String
  | .pending => "pending"
  | .valid => "valid"
  | .invalid => "invalid"

def Disposition.text : Disposition → String
  | .active => "active"
  | .authoritative => "authoritative"
  | .stale => "stale"
  | .abandoned => "abandoned"

def CellOutcome.text : CellOutcome → String
  | .accept => "accept"
  | .reject => "reject"
  | .invalidEvaluation => "invalid_evaluation"
  | .flaky => "flaky"
  | .error => "error"

def CellValidity.text : CellValidity → String
  | .valid => "valid"
  | .invalid => "invalid"

theorem Outcome.text_injective : Function.Injective Outcome.text := by
  intro a b h
  cases a <;> cases b <;> first | rfl | exact absurd h (by decide)

theorem EvaluationValidity.text_injective : Function.Injective EvaluationValidity.text := by
  intro a b h
  cases a <;> cases b <;> first | rfl | exact absurd h (by decide)

theorem Disposition.text_injective : Function.Injective Disposition.text := by
  intro a b h
  cases a <;> cases b <;> first | rfl | exact absurd h (by decide)

theorem CellOutcome.text_injective : Function.Injective CellOutcome.text := by
  intro a b h
  cases a <;> cases b <;> first | rfl | exact absurd h (by decide)

theorem CellValidity.text_injective : Function.Injective CellValidity.text := by
  intro a b h
  cases a <;> cases b <;> first | rfl | exact absurd h (by decide)

end VerifierCI
