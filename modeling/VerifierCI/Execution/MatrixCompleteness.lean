import VerifierCI.Execution.MatrixCells

/-! # Complete matrices

Completeness is computed from the jobs the caller passes. It speaks about the
plan exactly if those are the planned jobs and each of them is ahead at its
coordinates.
-/

namespace VerifierCI

open Python

def AcceptanceMatrix.Selects (matrix : AcceptanceMatrix) (attempt : EvaluationAttempt) : Prop :=
  ∃ cell ∈ matrix.cells, attempt.attemptId ∈ cell.selectedAttemptIds

/-- The matrix has, for every planned job, a terminal job with one selected
attempt, uses no job of another run and has the planned cells. -/
structure CoversPlan (sha256 : List UInt8 → Digest) (inputs : MatrixInputs)
    (matrix : AcceptanceMatrix) : Prop where
  planned : ∀ planned ∈ expand sha256 inputs.manifest, ∃ job ∈ inputs.jobs,
    SamePlan planned job ∧ job.state.isTerminal = true ∧
      ∃! attempt, attempt ∈ inputs.attempts ∧ attempt.jobId = job.jobId ∧ matrix.Selects attempt
  ownRun : ∀ job ∈ inputs.jobs, job.runId = inputs.manifest.runId
  cells : ∀ key, (∃ cell ∈ matrix.cells, (cell.taskKey, cell.caseId, cell.verifierKey) = key) ↔
    ∃ planned ∈ expand sha256 inputs.manifest, planned.cellKey = key

/-- Some attempt of the job is ahead of all attempts of other jobs at the same
coordinates. -/
def JobAhead (inputs : MatrixInputs) (job : Job) : Prop :=
  ∃ attempt ∈ inputs.attempts, attempt.jobId = job.jobId ∧
    ∀ other ∈ inputs.jobs, other.jobId ≠ job.jobId → other.cellKey = job.cellKey →
      other.repetition = job.repetition →
        ∀ rival ∈ inputs.attempts, rival.jobId = other.jobId → Outranks attempt rival

/-- The caller passed the planned jobs, and no job of another run or cell. -/
structure PlanGiven (sha256 : List UInt8 → Digest) (inputs : MatrixInputs) : Prop where
  listed : ∀ planned ∈ expand sha256 inputs.manifest, ∃ job ∈ inputs.jobs, SamePlan planned job
  ownRun : ∀ job ∈ inputs.jobs, job.runId = inputs.manifest.runId
  ownCell : ∀ job ∈ inputs.jobs, ∃ planned ∈ expand sha256 inputs.manifest,
    planned.cellKey = job.cellKey
  ahead : ∀ planned ∈ expand sha256 inputs.manifest, ∀ job ∈ inputs.jobs, SamePlan planned job →
    JobAhead inputs job

section Complete

variable {sha256 : List UInt8 → Digest} {inputs : MatrixInputs} {reducerVersion : String}
  {matrix : AcceptanceMatrix}

/-- In a complete matrix all jobs are terminal and all cells are full. -/
theorem Built.of_complete (h : Built sha256 inputs reducerVersion matrix)
    (hcomplete : matrix.complete = true) :
    (∀ job ∈ inputs.jobs, job.state.isTerminal = true) ∧
      ∀ cell ∈ matrix.cells,
        (cell.selectedAttemptIds.length : Int) = inputs.manifest.maxRepetitions := by
  rw [h.complete, MatrixInputs.isComplete, Bool.and_eq_true, List.all_eq_true,
    List.all_eq_true] at hcomplete
  refine ⟨hcomplete.1, ?_⟩
  intro cell hcell
  simpa using hcomplete.2 cell hcell

/-- The attempt counts at the coordinates of its own job only. -/
theorem Built.mem_attemptsOf_iff (h : Built sha256 inputs reducerVersion matrix) {job : Job}
    (hjob : job ∈ inputs.jobs) {attempt : EvaluationAttempt} (hid : attempt.jobId = job.jobId)
    {key : String × String × String} {rep : Nat} :
    attempt ∈ inputs.attemptsOf key rep ↔ attempt ∈ inputs.attempts ∧
      (rep : Int) < inputs.manifest.maxRepetitions ∧ job.cellKey = key ∧ job.repetition = rep := by
  rw [MatrixInputs.mem_attemptsOf]
  refine and_congr_right fun _ => and_congr_right fun _ => ?_
  simp only [jobById_eq_some_iff h.jobIds, hid]
  constructor
  · rintro ⟨own, ⟨hown, heq⟩, hkey, hrep⟩
    obtain rfl := List.inj_on_of_nodup_map h.jobIds hown hjob heq
    exact ⟨hkey, hrep⟩
  · rintro ⟨hkey, hrep⟩
    exact ⟨job, ⟨hjob, rfl⟩, hkey, hrep⟩

/-- An attempt of a job is selected if it is preferred at the job's coordinates. -/
theorem Built.selects_iff (h : Built sha256 inputs reducerVersion matrix) {job : Job}
    (hjob : job ∈ inputs.jobs) {rep : Nat} (hrep : job.repetition = rep)
    {attempt : EvaluationAttempt} (hattempt : attempt ∈ inputs.attempts)
    (hid : attempt.jobId = job.jobId) : matrix.Selects attempt ↔
      (rep : Int) < inputs.manifest.maxRepetitions ∧
        Preferred (inputs.attemptsOf job.cellKey rep) attempt := by
  constructor
  · rintro ⟨cell, hcell, hselected⟩
    obtain ⟨key, _, hbuilt⟩ := h.key_of_cell hcell
    obtain ⟨other, hother, a, ha, haId⟩ := hbuilt.mem_selected.mp hselected
    have haMem := (MatrixInputs.mem_attemptsOf.mp ha.mem).1
    obtain rfl := List.inj_on_of_nodup_map h.attemptIds haMem hattempt haId
    obtain ⟨_, _, hkey, hrepetition⟩ := (h.mem_attemptsOf_iff hjob hid).mp ha.mem
    obtain rfl : other = rep := by omega
    exact ⟨hother, hkey ▸ ha⟩
  · rintro ⟨hlt, hpreferred⟩
    obtain ⟨cell, hcell, hbuilt⟩ := h.cell_of_key (mem_cellKeys.mpr ⟨job, hjob, rfl⟩)
    exact ⟨cell, hcell, hbuilt.mem_selected.mpr ⟨rep, hlt, attempt, hpreferred, rfl⟩⟩

/-- Where some attempt is preferred, it is one of a given job exactly if that
job is ahead. -/
theorem Built.selected_iff_ahead (h : Built sha256 inputs reducerVersion matrix) {job : Job}
    (hjob : job ∈ inputs.jobs) {rep : Nat} (hrep : job.repetition = rep)
    (hlt : (rep : Int) < inputs.manifest.maxRepetitions)
    (hpreferred : ∃ a, Preferred (inputs.attemptsOf job.cellKey rep) a) :
    (∃! attempt, attempt ∈ inputs.attempts ∧ attempt.jobId = job.jobId ∧ matrix.Selects attempt) ↔
      JobAhead inputs job := by
  obtain ⟨best, hbest⟩ := hpreferred
  obtain ⟨hbestMem, _, own, hown, hownKey, hownRep⟩ := MatrixInputs.mem_attemptsOf.mp hbest.mem
  obtain ⟨hownMem, hownId⟩ := mem_of_jobById hown
  constructor
  · rintro ⟨attempt, ⟨hattempt, hid, hselects⟩, _⟩
    obtain ⟨_, hattemptBest⟩ := (h.selects_iff hjob hrep hattempt hid).mp hselects
    refine ⟨attempt, hattempt, hid, ?_⟩
    intro other hother hne hkey hotherRep rival hrival hrivalId
    apply hattemptBest.outranks rival
    · exact (h.mem_attemptsOf_iff hother hrivalId).mpr ⟨hrival, hlt, hkey, hotherRep.trans hrep⟩
    · rintro rfl
      exact hne (hrivalId.symm.trans hid)
  · rintro ⟨attempt, hattempt, hid, hahead⟩
    have hbestId : best.jobId = job.jobId := by
      by_contra hne
      have hbehind := hahead own hownMem (fun heq => hne (hownId.symm.trans heq)) hownKey
        (hownRep.trans hrep.symm) best hbestMem hownId.symm
      refine (hbest.outranks attempt ?_ ?_).asymm hbehind
      · exact (h.mem_attemptsOf_iff hjob hid).mpr ⟨hattempt, hlt, rfl, hrep⟩
      · rintro rfl
        exact hne hid
    refine ⟨best, ⟨hbestMem, hbestId, ?_⟩, ?_⟩
    · exact (h.selects_iff hjob hrep hbestMem hbestId).mpr ⟨hlt, hbest⟩
    · rintro other ⟨hother, hotherId, hselects⟩
      exact ((h.selects_iff hjob hrep hother hotherId).mp hselects).2.eq hbest

end Complete

/-- A complete matrix covers the plan exactly if the plan was given to it: completeness is
computed over the jobs that are passed. -/
theorem coversPlan_iff {sha256 : List UInt8 → Digest} {inputs : MatrixInputs}
    {reducerVersion : String} {now : Datetime} {matrix : AcceptanceMatrix}
    (hbuild : buildMatrix sha256 inputs reducerVersion now = .ok matrix)
    (hcomplete : matrix.complete = true) :
    CoversPlan sha256 inputs matrix ↔ PlanGiven sha256 inputs := by
  have h := buildMatrix_ok hbuild
  obtain ⟨hterminal, hfull⟩ := h.of_complete hcomplete
  -- In a full cell the selected attempt is that of the job listed first for the repetition.
  have hselected : ∀ planned ∈ expand sha256 inputs.manifest, ∀ job ∈ inputs.jobs,
      SamePlan planned job → ((∃! attempt, attempt ∈ inputs.attempts ∧
        attempt.jobId = job.jobId ∧ matrix.Selects attempt) ↔ JobAhead inputs job) := by
    intro planned hplanned job hjob hsame
    obtain ⟨key, _, rep, hlt, rfl⟩ := mem_expand.mp hplanned
    obtain ⟨cell, hcell, hbuilt⟩ := h.cell_of_key (mem_cellKeys.mpr ⟨job, hjob, rfl⟩)
    exact h.selected_iff_ahead hjob hsame.repetition hlt
      ((hbuilt.full_iff.mp (hfull cell hcell)).2 rep hlt)
  -- The cells are keyed by the jobs that were passed in, whatever the plan says.
  have hcells : ∀ key, (∃ cell ∈ matrix.cells,
      (cell.taskKey, cell.caseId, cell.verifierKey) = key) ↔
        ∃ job ∈ inputs.jobs, job.cellKey = key := by
    intro key
    rw [← mem_cellKeys]
    constructor
    · rintro ⟨cell, hcell, rfl⟩
      obtain ⟨key, hkey, hbuilt⟩ := h.key_of_cell hcell
      rwa [hbuilt.key_eq]
    · intro hkey
      obtain ⟨cell, hcell, hbuilt⟩ := h.cell_of_key hkey
      exact ⟨cell, hcell, hbuilt.key_eq⟩
  constructor
  · intro hcovers
    refine ⟨?_, hcovers.ownRun, ?_, ?_⟩
    · intro planned hplanned
      obtain ⟨job, hjob, hsame, _⟩ := hcovers.planned planned hplanned
      exact ⟨job, hjob, hsame⟩
    · intro job hjob
      exact (hcovers.cells job.cellKey).mp ((hcells job.cellKey).mpr ⟨job, hjob, rfl⟩)
    · intro planned hplanned job hjob hsame
      obtain ⟨same, hsameMem, hsamePlan, _, hone⟩ := hcovers.planned planned hplanned
      obtain rfl : same = job := List.inj_on_of_nodup_map h.jobIds hsameMem hjob
        (hsamePlan.jobId.trans hsame.jobId.symm)
      exact (hselected planned hplanned same hjob hsame).mp hone
  · intro hgiven
    refine ⟨?_, hgiven.ownRun, ?_⟩
    · intro planned hplanned
      obtain ⟨job, hjob, hsame⟩ := hgiven.listed planned hplanned
      exact ⟨job, hjob, hsame, hterminal job hjob,
        (hselected planned hplanned job hjob hsame).mpr
        (hgiven.ahead planned hplanned job hjob hsame)⟩
    · intro key
      rw [hcells]
      constructor
      · rintro ⟨job, hjob, rfl⟩
        exact hgiven.ownCell job hjob
      · rintro ⟨planned, hplanned, rfl⟩
        obtain ⟨job, hjob, hsame⟩ := hgiven.listed planned hplanned
        exact ⟨job, hjob, hsame.cellKey⟩

/-- Both jobs of the small plan are passed, and both are done. -/
theorem coversPlan_iff_small :
    CoversPlan matrixSha256 smallInputs smallMatrix ↔ PlanGiven matrixSha256 smallInputs :=
  coversPlan_iff buildMatrix_small rfl

/-! ## A matrix without jobs -/

def noAttemptsDigest : Digest where
  text := "4f53cda18c2baa0c0354bb5f9a3ecbe5ed12ab4d8e11ba873c2f11161202b945"
  length_eq := String.length_ofList
  hex := hex_ofList rfl

def noCellsDigest : Digest where
  text := "e8bdbcc7e520f137c346195bbe9e8baf88a23767e004ec0aea74c4f60aed7cc9"
  length_eq := String.length_ofList
  hex := hex_ofList rfl

/-- SHA-256 on what planning the small run and reducing none of it hashes. -/
def emptySha256 : List UInt8 → Digest :=
  knownSha256 [
    (ascii "[\"run\",\"task\",\"case\",\"verifier\",0]", baselineDigest),
    (ascii "[\"run\",\"task\",\"case\",\"candidate\",0]", candidateDigest),
    (ascii "[]", noAttemptsDigest)] noCellsDigest

def noJobs : MatrixInputs :=
  { smallInputs with
    jobs := []
    attempts := [] }

def emptyMatrix : AcceptanceMatrix :=
  { smallMatrix with
    matrixId := noCellsDigest.text
    cells := []
    sourceAttemptsDigest := noAttemptsDigest.text }

theorem buildMatrix_noJobs : buildMatrix emptySha256 noJobs defaultReducerVersion
    smallManifest.timestamp = .ok emptyMatrix := by
  unfold buildMatrix
  simp only [canonicalBytes_eq]
  decide +kernel

/-- Without any job of its plan a matrix is complete, since nothing that was passed is
missing. -/
theorem complete_without_plan : ∃ matrix,
    buildMatrix emptySha256 noJobs defaultReducerVersion smallManifest.timestamp = .ok matrix ∧
      matrix.complete = true ∧ ¬ CoversPlan emptySha256 noJobs matrix := by
  refine ⟨emptyMatrix, buildMatrix_noJobs, rfl, ?_⟩
  intro hcovers
  have hplanned : pendingJob emptySha256 "run" "task" "case" "verifier" 0 ∈
      expand emptySha256 smallManifest :=
    mem_expand.mpr ⟨("task", "case", "verifier"), by decide, 0, by decide, rfl⟩
  obtain ⟨job, hjob, _⟩ := hcovers.planned _ hplanned
  cases hjob

end VerifierCI
