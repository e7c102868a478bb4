import Mathlib.Data.List.Dedup
import VerifierCI.Execution.Operations
import VerifierCI.Execution.PlanIdentity
import VerifierCI.Execution.Reducer

/-! # What a built matrix consists of

Building succeeds on distinct jobs and attempts whose jobs are known; the cells
are then those of the jobs given, each reduced from its own attempts.
-/

namespace VerifierCI

open Python Relational

/-! ## Jobs by id -/

theorem mem_of_jobById {jobs : List Job} {jobId : String} {job : Job}
    (h : jobById jobs jobId = some job) : job ∈ jobs ∧ job.jobId = jobId :=
  ⟨List.mem_of_find?_eq_some h, by simpa using List.find?_some h⟩

/-- Ids are distinct, so the dictionary of jobs by id forgets none of them. -/
theorem jobById_eq_some_iff {jobs : List Job} (hids : (jobs.map Job.jobId).Nodup) {jobId : String}
    {job : Job} : jobById jobs jobId = some job ↔ job ∈ jobs ∧ job.jobId = jobId := by
  refine ⟨mem_of_jobById, ?_⟩
  rintro ⟨hjob, rfl⟩
  cases hfind : jobById jobs job.jobId with
  | none =>
      have hnot := List.find?_eq_none.mp hfind job hjob
      simp at hnot
  | some found =>
      obtain ⟨hmem, hid⟩ := mem_of_jobById hfind
      exact congrArg some (List.inj_on_of_nodup_map hids hmem hjob hid)

theorem SamePlan.cellKey {job job' : Job} (h : SamePlan job job') : job'.cellKey = job.cellKey := by
  rw [Job.cellKey, h.taskKey, h.caseId, h.verifierKey, Job.cellKey]

theorem mem_cellKeys {jobs : List Job} {key : String × String × String} :
    key ∈ cellKeys jobs ↔ ∃ job ∈ jobs, job.cellKey = key := by
  rw [cellKeys, (List.perm_insertionSort _ _).mem_iff, List.mem_dedup, List.mem_map]

namespace MatrixInputs

variable (inputs : MatrixInputs)

/-- The attempts of one cell that count for one repetition. -/
def attemptsOf (key : String × String × String) (rep : Nat) : List EvaluationAttempt :=
  attemptsAt inputs.manifest.maxRepetitions (jobRepetitionMap inputs.jobs)
    (cellAttempts inputs.jobs inputs.attempts key) rep

variable {inputs}

theorem mem_cellAttempts {key : String × String × String} {attempt : EvaluationAttempt} :
    attempt ∈ cellAttempts inputs.jobs inputs.attempts key ↔ attempt ∈ inputs.attempts ∧
      ∃ job, jobById inputs.jobs attempt.jobId = some job ∧ job.cellKey = key := by
  simp only [cellAttempts, List.mem_filter, decide_eq_true_eq, Option.map_eq_some_iff]

/-- An attempt counts for the cell and the repetition of its job. -/
theorem mem_attemptsOf {key : String × String × String} {rep : Nat} {attempt : EvaluationAttempt} :
    attempt ∈ inputs.attemptsOf key rep ↔ attempt ∈ inputs.attempts ∧
      (rep : Int) < inputs.manifest.maxRepetitions ∧
        ∃ job, jobById inputs.jobs attempt.jobId = some job ∧ job.cellKey = key ∧
          job.repetition = rep := by
  rw [attemptsOf, attemptsAt, List.mem_filter, mem_cellAttempts, decide_eq_true_eq]
  constructor
  · rintro ⟨⟨hmem, job, hjob, hkey⟩, hrep⟩
    simp only [repetitionOf, jobRepetitionMap, hjob, Option.map_some] at hrep
    split_ifs at hrep with hrange
    have hrepetition := Option.some.inj hrep
    exact ⟨hmem, by omega, job, hjob, hkey, by omega⟩
  · rintro ⟨hmem, hlt, job, hjob, hkey, hrep⟩
    refine ⟨⟨hmem, job, hjob, hkey⟩, ?_⟩
    simp only [repetitionOf, jobRepetitionMap, hjob, Option.map_some, hrep]
    rw [if_neg (by omega), Int.toNat_natCast]

end MatrixInputs

/-! ## Built matrices -/

/-- The cell of a key, reduced from the attempts of the inputs. -/
def CellBuilt (inputs : MatrixInputs) (key : String × String × String) (cell : AcceptanceCell) :
    Prop :=
  ∃ results, AggregatesTo inputs.manifest.maxRepetitions (inputs.attemptsOf key) results ∧
    cell = assembleCell (inputs.header key) inputs.manifest.maxRepetitions
      (unmappedAttempts inputs.manifest.maxRepetitions (jobRepetitionMap inputs.jobs)
        (cellAttempts inputs.jobs inputs.attempts key)) results

/-- What a successful `build_matrix` has checked and returned. -/
structure Built (sha256 : List UInt8 → Digest) (inputs : MatrixInputs) (reducerVersion : String)
    (matrix : AcceptanceMatrix) : Prop where
  jobIds : (inputs.jobs.map Job.jobId).Nodup
  attemptIds : (inputs.attempts.map EvaluationAttempt.attemptId).Nodup
  known : ∀ attempt ∈ inputs.attempts, ∃ job, jobById inputs.jobs attempt.jobId = some job
  cells : List.Forall₂ (CellBuilt inputs) (cellKeys inputs.jobs) matrix.cells
  complete : matrix.complete = inputs.isComplete matrix.cells
  sourceAttemptsDigest : matrix.sourceAttemptsDigest =
    (sha256 (canonicalBytes (attemptRecords inputs.attempts))).text
  matrixId : matrix.matrixId = (sha256 (canonicalBytes (matrixIdPayload inputs.manifest.runId
    reducerVersion matrix.sourceAttemptsDigest matrix.cells))).text

/-- An attempt is accepted if its job was passed. -/
theorem requireKnownJob_eq_ok {jobs : List Job} {attempt : EvaluationAttempt} :
    requireKnownJob jobs attempt = .ok () ↔ ∃ job, jobById jobs attempt.jobId = some job := by
  rw [requireKnownJob, ← Option.isSome_iff_exists]
  split_ifs with h
  · simp [h]
  · simp [h, raiseWith]

/-- A matrix that is built has one cell for each key among the jobs, and ids and digests
computed from the cells. -/
theorem buildMatrix_ok {sha256 : List UInt8 → Digest} {inputs : MatrixInputs}
    {reducerVersion : String} {now : Datetime} {matrix : AcceptanceMatrix}
    (h : buildMatrix sha256 inputs reducerVersion now = .ok matrix) :
    Built sha256 inputs reducerVersion matrix := by
  unfold buildMatrix at h
  obtain ⟨hjobs, h⟩ := bind_eq_ok_unit.mp h
  obtain ⟨hattempts, h⟩ := bind_eq_ok_unit.mp h
  obtain ⟨hknown, h⟩ := bind_eq_ok_unit.mp h
  obtain ⟨cells, hcells, h⟩ := bind_eq_ok.mp h
  obtain ⟨_, hmatrix⟩ := bind_eq_ok_unit.mp h
  obtain rfl := Except.ok.inj hmatrix
  have hattemptIds := requireDistinct_eq_ok.mp hattempts
  refine ⟨requireDistinct_eq_ok.mp hjobs, hattemptIds, ?_, ?_, rfl, rfl, rfl⟩
  · intro attempt hattempt
    exact requireKnownJob_eq_ok.mp (forM_eq_ok.mp hknown attempt hattempt)
  · refine (mapM_eq_ok.mp hcells).imp ?_
    intro key cell hcell
    exact aggregateCell_ok (hattemptIds.sublist (List.filter_sublist.map _)) hcell

namespace CellBuilt

variable {inputs : MatrixInputs} {key : String × String × String} {cell : AcceptanceCell}

theorem key_eq (h : CellBuilt inputs key cell) :
    (cell.taskKey, cell.caseId, cell.verifierKey) = key := by
  obtain ⟨results, _, rfl⟩ := h
  rfl

/-- The selected attempts are the preferred ones of the repetitions. -/
theorem mem_selected (h : CellBuilt inputs key cell) {id : String} :
    id ∈ cell.selectedAttemptIds ↔ ∃ rep : Nat, (rep : Int) < inputs.manifest.maxRepetitions ∧
      ∃ a, Preferred (inputs.attemptsOf key rep) a ∧ a.attemptId = id := by
  obtain ⟨results, hresults, rfl⟩ := h
  exact hresults.mem_selected

/-- A cell is full if every planned repetition has a preferred attempt. -/
theorem full_iff (h : CellBuilt inputs key cell) :
    (cell.selectedAttemptIds.length : Int) = inputs.manifest.maxRepetitions ↔
      0 ≤ inputs.manifest.maxRepetitions ∧
        ∀ rep : Nat, (rep : Int) < inputs.manifest.maxRepetitions →
          ∃ a, Preferred (inputs.attemptsOf key rep) a := by
  obtain ⟨results, hresults, rfl⟩ := h
  have hlength := hresults.length
  have hselected : (results.filterMap fun result =>
      result.selected.map EvaluationAttempt.attemptId).length = results.length ↔
        ∀ result ∈ results, ∃ a, result.selected = some a := by
    rw [List.filterMap_length_eq_length]
    simp only [Option.isSome_map, Option.isSome_iff_exists]
  have hpreferred : (∀ result ∈ results, ∃ a, result.selected = some a) ↔
      ∀ rep : Nat, (rep : Int) < inputs.manifest.maxRepetitions →
        ∃ a, Preferred (inputs.attemptsOf key rep) a := by
    constructor
    · intro hall rep hrep
      obtain ⟨result, hresult⟩ := hresults.getElem?_some hrep
      obtain ⟨a, ha⟩ := hall result (List.mem_of_getElem? hresult)
      exact ⟨a, ((hresults.reduces rep result hresult).selected a).mp ha⟩
    · intro hall result hmem
      obtain ⟨rep, hresult⟩ := List.mem_iff_getElem?.mp hmem
      obtain ⟨a, ha⟩ := hall rep (hresults.lt_of_getElem? hresult)
      exact ⟨a, ((hresults.reduces rep result hresult).selected a).mpr ha⟩
  rw [← hpreferred, ← hselected]
  simp only [assembleCell]
  omega

end CellBuilt

/-- Every key has its cell. -/
theorem Built.cell_of_key {sha256 : List UInt8 → Digest} {inputs : MatrixInputs}
    {reducerVersion : String} {matrix : AcceptanceMatrix}
    (h : Built sha256 inputs reducerVersion matrix) {key : String × String × String}
    (hkey : key ∈ cellKeys inputs.jobs) : ∃ cell ∈ matrix.cells, CellBuilt inputs key cell := by
  obtain ⟨i, hi, rfl⟩ := List.getElem_of_mem hkey
  have hlength := h.cells.length_eq
  exact ⟨matrix.cells[i], List.getElem_mem _, h.cells.get hi (by omega)⟩

/-- Every cell belongs to a key of the jobs that were passed. -/
theorem Built.key_of_cell {sha256 : List UInt8 → Digest} {inputs : MatrixInputs}
    {reducerVersion : String} {matrix : AcceptanceMatrix}
    (h : Built sha256 inputs reducerVersion matrix) {cell : AcceptanceCell}
    (hcell : cell ∈ matrix.cells) : ∃ key ∈ cellKeys inputs.jobs, CellBuilt inputs key cell := by
  obtain ⟨i, hi, rfl⟩ := List.getElem_of_mem hcell
  have hlength := h.cells.length_eq
  exact ⟨(cellKeys inputs.jobs)[i], List.getElem_mem _, h.cells.get (by omega) hi⟩

/-! ## A small matrix -/

def finishedJob (jobId verifierKey attemptId : String) : Job :=
  { plannedJob jobId with
    verifierKey := verifierKey
    state := .done
    fence := 1
    attemptId := some attemptId
    attemptsStarted := 1
    selectedAttemptId := some attemptId }

def smallJobs : List Job :=
  [finishedJob baselineDigest.text "verifier" "first",
    finishedJob candidateDigest.text "candidate" "second"]

def smallAttempts : List EvaluationAttempt :=
  [acceptingAttempt "first" baselineDigest.text 1,
    acceptingAttempt "second" candidateDigest.text 1]

/-- Both jobs of the small plan are done and accepted. -/
def smallInputs : MatrixInputs where
  manifest := smallManifest
  jobs := smallJobs
  attempts := smallAttempts
  adjudications := .empty
  cases := .empty
  repositoryMap := none

/-- The digests of the attempt records and of the matrix payload. -/
def smallAttemptsDigest : Digest where
  text := "ff65fa2a8a9584253cdb26d7440a5feb403f1726dced271c3d2d2b8a47e59cc8"
  length_eq := String.length_ofList
  hex := hex_ofList rfl

def smallMatrixDigest : Digest where
  text := "7a813e6b26232186480c9bcc864d78710447966fc0ecbb3c4816acd750c104f4"
  length_eq := String.length_ofList
  hex := hex_ofList rfl

/-- SHA-256 on what planning and reducing the small run hashes. The last of it
is the matrix payload. -/
def matrixSha256 : List UInt8 → Digest :=
  knownSha256 [
    (ascii "[\"run\",\"task\",\"case\",\"verifier\",0]", baselineDigest),
    (ascii "[\"run\",\"task\",\"case\",\"candidate\",0]", candidateDigest),
    (canonicalBytes (attemptRecords smallAttempts), smallAttemptsDigest)] smallMatrixDigest

def acceptedCell (verifierKey attemptId : String) : AcceptanceCell where
  taskKey := "task"
  repositoryId := ""
  caseId := "case"
  verifierKey := verifierKey
  adjudicationId := "unadjudicated"
  label := .unresolved
  role := .challenge
  outcome := .accept
  evaluationValidity := .valid
  plannedRepetitions := 1
  selectedAttemptIds := [attemptId]
  excludedAttemptIds := []
  repetitionOutcomes := [.completed .accept]
  diagnosticCodes := []

def smallMatrix : AcceptanceMatrix where
  matrixId := smallMatrixDigest.text
  runId := "run"
  reducerVersion := defaultReducerVersion
  cells := [acceptedCell "candidate" "second", acceptedCell "verifier" "first"]
  complete := true
  sourceAttemptsDigest := smallAttemptsDigest.text
  createdAt := smallManifest.timestamp

theorem buildMatrix_small : buildMatrix matrixSha256 smallInputs defaultReducerVersion
    smallManifest.timestamp = .ok smallMatrix := by
  unfold buildMatrix matrixSha256
  simp only [canonicalBytes_eq]
  decide +kernel

end VerifierCI
