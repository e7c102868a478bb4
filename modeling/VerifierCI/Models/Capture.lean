import VerifierCI.Models.Result

/-! # Captures, test reports and parsed outcomes

What a worker records of a process, what a test runner reports, and the
classification of both.
-/

namespace VerifierCI

open Python

/-- Low-level process execution capture recorded by a worker. -/
structure ExecutionCapture where
  attemptId : String
  exitCode : Option Int
  timedOut : Bool
  /-- Null if unavailable. -/
  oomKilled : Option Bool
  cancelled : Bool
  /-- Isolated build result when a build ran. -/
  buildExitCode : Option Int
  stdoutHash : Option String
  stderrHash : Option String
  reportDigest : Option String
  /-- An output or stream cap was reached. -/
  truncated : Bool
  resources : ResourceUsage
  /-- Launch, daemon or collection infrastructure failure. -/
  runtimeError : Option String
deriving DecidableEq, Repr

/-- The statuses the report parser gives. -/
inductive TestStatus where
  | passed
  | failed
  | skipped
deriving DecidableEq, Repr

/-- Result of executing an individual collected test item. -/
structure TestResult where
  testId : WideString
  status : TestStatus
  duration : Option PyFloat
  failureDigest : Option String
deriving DecidableEq, Repr

structure TestReport where
  schemaVersion : String
  collectedIds : List WideString
  results : List TestResult
  completed : Bool
  runnerError : Option String
deriving DecidableEq, Repr

/-- Classified evaluation outcome derived by parsing an execution capture. -/
structure ParsedOutcome where
  outcome : Outcome
  evaluationValidity : EvaluationValidity
  errorCode : Option String
  report : Option TestReport
  evidenceDigests : List String
deriving DecidableEq, Repr

/-- The classification of an evaluation that gives no decision. -/
def ParsedOutcome.invalid (outcome : Outcome) (errorCode : String) (report : Option TestReport)
    (evidenceDigests : List String) : ParsedOutcome where
  outcome := outcome
  evaluationValidity := .invalid
  errorCode := some errorCode
  report := report
  evidenceDigests := evidenceDigests

/-- A decision is valid, everything else is not. -/
structure ParsedOutcome.Consistent (parsed : ParsedOutcome) : Prop where
  valid : parsed.outcome = .accept ∨ parsed.outcome = .reject → parsed.evaluationValidity = .valid
  invalid : parsed.outcome = .invalidEvaluation ∨ parsed.outcome = .error →
    parsed.evaluationValidity = .invalid

theorem ParsedOutcome.invalid_consistent {outcome : Outcome} {errorCode : String}
    {report : Option TestReport} {evidenceDigests : List String}
    (hno : outcome = .invalidEvaluation ∨ outcome = .error) :
    (ParsedOutcome.invalid outcome errorCode report evidenceDigests).Consistent where
  valid := by
    rcases hno with rfl | rfl <;> simp [ParsedOutcome.invalid]
  invalid := fun _ => rfl

end VerifierCI
