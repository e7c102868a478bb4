import VerifierCI.Errors
import VerifierCI.Execution.Jobs
import VerifierCI.Execution.Planner

/-! # The cell reducer and the acceptance matrix

The reducer selects one attempt for each planned repetition of a cell and
aggregates their outcomes without majority voting; the matrix holds one cell
for each (task, case, verifier) among the jobs it is given.
-/

namespace VerifierCI

open Python Relational

/-! ## Selection -/

/-- Is the key `(fence, started_at, attempt_id)` of `a` greater than that of `b`?
Start times are compared only on equal fences; a naive and an aware one cannot be. -/
def isLater (a b : EvaluationAttempt) : Except Exc Bool :=
  if a.fence ≠ b.fence then .ok (decide (b.fence < a.fence))
  else if a.startedAt.utcoffset.isSome ≠ b.startedAt.utcoffset.isSome then .error .typeError
  else if a.startedAt.instant ≠ b.startedAt.instant then
    .ok (decide (b.startedAt.instant < a.startedAt.instant))
  else .ok (decide (b.attemptId < a.attemptId))

/-- `max(best, *rest)` by that key: the first of the greatest. -/
def latest (best : EvaluationAttempt) : List EvaluationAttempt → Except Exc EvaluationAttempt
  | [] => .ok best
  | attempt :: rest => do
      if ← isLater attempt best then latest attempt rest else latest best rest

/-- What the reducer makes of the attempts of one repetition. -/
structure RepetitionResult where
  selected : Option EvaluationAttempt
  excluded : List String

/-- The ids of the attempts other than the selected one. -/
def othersThan (selected : EvaluationAttempt) (attempts : List EvaluationAttempt) : List String :=
  (attempts.filter fun attempt => attempt.attemptId ≠ selected.attemptId).map
    EvaluationAttempt.attemptId

/-- Select among the attempts of one repetition: the latest authoritative one,
else the latest of all unless that one is stale or abandoned. -/
def reduceRepetition (attempts : List EvaluationAttempt) : Except Exc RepetitionResult :=
  match attempts.filter fun attempt => attempt.disposition = .authoritative with
  | first :: rest => do
      let selected ← latest first rest
      .ok ⟨some selected, othersThan selected attempts⟩
  | [] =>
      match attempts with
      | [] => .ok ⟨none, []⟩
      | first :: rest => do
          let recent ← latest first rest
          if recent.disposition = .stale ∨ recent.disposition = .abandoned then
            .ok ⟨none, attempts.map EvaluationAttempt.attemptId⟩
          else .ok ⟨some recent, othersThan recent attempts⟩

/-- An outcome, or `pending` when there is none. -/
def orPending : Option Outcome → RepetitionOutcome
  | some outcome => .completed outcome
  | none => .pending

namespace RepetitionResult

def outcome (result : RepetitionResult) : RepetitionOutcome :=
  orPending (result.selected.bind EvaluationAttempt.outcome)

/-- The error code of the selected attempt, unless empty. -/
def diagnosticCode (result : RepetitionResult) : Option String :=
  (result.selected.bind EvaluationAttempt.errorCode).filter fun code => code ≠ ""

end RepetitionResult

/-! ## Aggregation -/

/-- The repetition an attempt counts for. Attempts of unknown jobs and of
repetitions outside the plan count for none. -/
def repetitionOf (plannedRepetitions : Int) (jobRepetition : String → Option Int)
    (attempt : EvaluationAttempt) : Option Nat :=
  match jobRepetition attempt.jobId with
  | none => none
  | some rep => if rep < 0 ∨ plannedRepetitions ≤ rep then none else some rep.toNat

def appendIfAbsent (codes : List String) (code : String) : List String :=
  if code ∈ codes then codes else codes ++ [code]

/-- Outcome and validity of a cell, with the diagnostic codes of its repetitions
extended. There is no majority voting. -/
def cellVerdict (plannedRepetitions : Int) (outcomes : List RepetitionOutcome)
    (codes : List String) : CellOutcome × CellValidity × List String :=
  let completed := outcomes.filter (· ≠ .pending)
  let acceptCount := completed.count (.completed .accept)
  let rejectCount := completed.count (.completed .reject)
  let invalidCount := completed.count (.completed .invalidEvaluation)
  let errorCount := completed.count (.completed .error)
  let total := completed.length
  if (total : Int) < plannedRepetitions then
    (.invalidEvaluation, .invalid, appendIfAbsent codes "INCOMPLETE_REPETITIONS")
  else if acceptCount = total then (.accept, .valid, codes)
  else if rejectCount = total then (.reject, .valid, codes)
  else if 0 < acceptCount ∧ 0 < rejectCount ∧ acceptCount + rejectCount = total then
    (.flaky, .invalid, appendIfAbsent codes "FLAKY")
  else if invalidCount = total then (.invalidEvaluation, .invalid, codes)
  else if errorCount = total then (.error, .invalid, codes)
  else (.invalidEvaluation, .invalid, appendIfAbsent codes "instability_detected")

/-- Deduplicate while preserving order. -/
def dedupeCodes (codes : List String) : List String :=
  codes.foldl appendIfAbsent []

structure CellHeader where
  taskKey : String
  repositoryId : String
  caseId : String
  verifierKey : String
  adjudicationId : String
  label : Label
  role : Role

/-- The attempts that count for a repetition, in the order given. -/
def attemptsAt (plannedRepetitions : Int) (jobRepetition : String → Option Int)
    (attempts : List EvaluationAttempt) (rep : Nat) : List EvaluationAttempt :=
  attempts.filter fun attempt => repetitionOf plannedRepetitions jobRepetition attempt = some rep

def unmappedAttempts (plannedRepetitions : Int) (jobRepetition : String → Option Int)
    (attempts : List EvaluationAttempt) : List EvaluationAttempt :=
  attempts.filter fun attempt => (repetitionOf plannedRepetitions jobRepetition attempt).isNone

def assembleCell (header : CellHeader) (plannedRepetitions : Int)
    (unmapped : List EvaluationAttempt) (results : List RepetitionResult) : AcceptanceCell :=
  let outcomes := results.map RepetitionResult.outcome
  let verdict :=
    cellVerdict plannedRepetitions outcomes (results.filterMap RepetitionResult.diagnosticCode)
  { taskKey := header.taskKey
    repositoryId := header.repositoryId
    caseId := header.caseId
    verifierKey := header.verifierKey
    adjudicationId := header.adjudicationId
    label := header.label
    role := header.role
    outcome := verdict.1
    evaluationValidity := verdict.2.1
    plannedRepetitions := plannedRepetitions
    selectedAttemptIds := results.filterMap fun result =>
      result.selected.map EvaluationAttempt.attemptId
    excludedAttemptIds := unmapped.map EvaluationAttempt.attemptId ++
      results.flatMap RepetitionResult.excluded
    repetitionOutcomes := outcomes
    diagnosticCodes := dedupeCodes verdict.2.2 }

/-- Aggregate all repetitions for a (task, case, verifier) cell. An absent or
empty repetition map knows no job. -/
def aggregateCell (header : CellHeader) (plannedRepetitions : Int)
    (attempts : List EvaluationAttempt) (jobRepetition : String → Option Int) :
    Except Exc AcceptanceCell := do
  let results ← (List.range plannedRepetitions.toNat).mapM fun rep =>
    reduceRepetition (attemptsAt plannedRepetitions jobRepetition attempts rep)
  .ok (assembleCell header plannedRepetitions
    (unmappedAttempts plannedRepetitions jobRepetition attempts) results)

/-! ## The matrix -/

def defaultReducerVersion : String := "1.0.0"

/-- The arguments of `build_matrix`. Mappings are tables, in insertion order. -/
structure MatrixInputs where
  manifest : AuditManifest
  jobs : List Job
  attempts : List EvaluationAttempt
  adjudications : Table (Prod.fst : String × Adjudication → String)
  cases : Table (Prod.fst : String × PatchCase → String)
  repositoryMap : Option (Table (Prod.fst : String × String → String))

/-- `what` names the identity that occurs twice. -/
def requireDistinct (what : String) (ids : List String) : Except Exc Unit :=
  match firstDuplicate? [] ids with
  | some id =>
      raiseWith .identityConflict
        ("Duplicate " ++ what ++ " detected in matrix assembly: " ++ id)
  | none => .ok ()

/-- `job_by_id.get(job_id)`. -/
def jobById (jobs : List Job) (jobId : String) : Option Job :=
  jobs.find? fun job => job.jobId = jobId

def jobRepetitionMap (jobs : List Job) (jobId : String) : Option Int :=
  (jobById jobs jobId).map Job.repetition

def requireKnownJob (jobs : List Job) (attempt : EvaluationAttempt) : Except Exc Unit :=
  if (jobById jobs attempt.jobId).isSome then .ok ()
  else raiseWith .identityConflict
    ("Attempt " ++ attempt.attemptId ++ " references unknown job_id: " ++ attempt.jobId)

def CellKeyLe (a b : String × String × String) : Prop :=
  a.1 < b.1 ∨ a.1 = b.1 ∧ (a.2.1 < b.2.1 ∨ a.2.1 = b.2.1 ∧ a.2.2 ≤ b.2.2)

instance (a b : String × String × String) : Decidable (CellKeyLe a b) :=
  inferInstanceAs (Decidable (_ ∨ _ ∧ (_ ∨ _ ∧ _)))

/-- `sorted(cell_keys)`. -/
def cellKeys (jobs : List Job) : List (String × String × String) :=
  (jobs.map Job.cellKey).dedup.insertionSort CellKeyLe

def cellAttempts (jobs : List Job) (attempts : List EvaluationAttempt)
    (key : String × String × String) : List EvaluationAttempt :=
  attempts.filter fun attempt => (jobById jobs attempt.jobId).map Job.cellKey = some key

namespace MatrixInputs

variable (inputs : MatrixInputs)

/-- The adjudication under the case id, else the first one about the case. -/
def adjudicationOf (caseId : String) : Option Adjudication :=
  match inputs.adjudications.find? caseId with
  | some entry => some entry.2
  | none =>
      (inputs.adjudications.rows.map Prod.snd).find? fun adjudication =>
        adjudication.caseId = caseId

def header (key : String × String × String) : CellHeader where
  taskKey := key.1
  repositoryId :=
    match inputs.repositoryMap with
    | some repositories => ((repositories.find? key.1).map Prod.snd).getD ""
    | none => ""
  caseId := key.2.1
  verifierKey := key.2.2
  adjudicationId :=
    match inputs.adjudicationOf key.2.1 with
    | some adjudication => adjudication.adjudicationId
    | none => "unadjudicated"
  label :=
    match inputs.adjudicationOf key.2.1 with
    | some adjudication => adjudication.label
    | none => .unresolved
  role :=
    match inputs.cases.find? key.2.1 with
    | some entry => entry.2.role
    | none => .challenge

/-- The cell of one (task, case, verifier). -/
def buildCell (key : String × String × String) : Except Exc AcceptanceCell :=
  aggregateCell (inputs.header key) inputs.manifest.maxRepetitions
    (cellAttempts inputs.jobs inputs.attempts key) (jobRepetitionMap inputs.jobs)

/-- Is every job terminal and every repetition of every cell selected? -/
def isComplete (cells : List AcceptanceCell) : Bool :=
  (inputs.jobs.all fun job => job.state.isTerminal) &&
    cells.all fun cell =>
      (cell.selectedAttemptIds.length : Int) = inputs.manifest.maxRepetitions

end MatrixInputs

/-- What the matrix keeps of an attempt's identity. -/
def attemptRecord (attempt : EvaluationAttempt) : Json :=
  .obj [
    ("attempt_id", .str attempt.attemptId),
    ("job_id", .str attempt.jobId),
    ("disposition", .str attempt.disposition.text),
    ("outcome", Json.ofOption (fun outcome => .str outcome.text) attempt.outcome),
    ("validity", .str attempt.evaluationValidity.text)]

/-- The records of all attempts, sorted by attempt id. -/
def attemptRecords (attempts : List EvaluationAttempt) : Json :=
  .arr ((attempts.insertionSort fun a b => a.attemptId ≤ b.attemptId).map attemptRecord)

/-- What the matrix keeps of a cell's identity. -/
def cellRecord (cell : AcceptanceCell) : Json :=
  .obj [
    ("task_key", .str cell.taskKey),
    ("case_id", .str cell.caseId),
    ("verifier_key", .str cell.verifierKey),
    ("outcome", .str cell.outcome.text),
    ("validity", .str cell.evaluationValidity.text)]

def matrixIdPayload (runId reducerVersion sourceAttemptsDigest : String)
    (cells : List AcceptanceCell) : Json :=
  .obj [
    ("run_id", .str runId),
    ("reducer_version", .str reducerVersion),
    ("source_attempts_digest", .str sourceAttemptsDigest),
    ("cells", .arr (cells.map cellRecord))]

def validateMatrix (matrix : AcceptanceMatrix) (manifest : AuditManifest) : Except Exc Unit :=
  if matrix.runId ≠ manifest.runId then
    raiseWith .validationError ("Matrix run_id '" ++ matrix.runId ++
      "' does not match manifest run_id '" ++ manifest.runId ++ "'.")
  else .ok ()

/-- Build authoritative `AcceptanceMatrix` from jobs and execution attempts. -/
def buildMatrix (sha256 : List UInt8 → Digest) (inputs : MatrixInputs) (reducerVersion : String)
    (now : Datetime) : Except Exc AcceptanceMatrix := do
  requireDistinct "job_id" (inputs.jobs.map Job.jobId)
  requireDistinct "attempt_id" (inputs.attempts.map EvaluationAttempt.attemptId)
  inputs.attempts.forM (requireKnownJob inputs.jobs)
  let cells ← (cellKeys inputs.jobs).mapM inputs.buildCell
  let sourceAttemptsDigest := (sha256 (canonicalBytes (attemptRecords inputs.attempts))).text
  let matrix : AcceptanceMatrix :=
    { matrixId := (sha256 (canonicalBytes
        (matrixIdPayload inputs.manifest.runId reducerVersion sourceAttemptsDigest cells))).text
      runId := inputs.manifest.runId
      reducerVersion := reducerVersion
      cells := cells
      complete := inputs.isComplete cells
      sourceAttemptsDigest := sourceAttemptsDigest
      createdAt := now }
  validateMatrix matrix inputs.manifest
  .ok matrix

end VerifierCI
