import VerifierCI.Execution.MatrixAgreement
import VerifierCI.Execution.MatrixCompleteness
import VerifierCI.Execution.MatrixOrder

/-! # The matrix of a run

What `build_matrix` makes of the jobs and attempts of a run as they are read
off the queue: it always returns, it is complete exactly when every job has
finished with a selected attempt, and once the jobs are finished its cells are
final.
-/

namespace VerifierCI

open Python Relational

/-- The inputs are the jobs of the run and their attempt rows, in any order. -/
structure ReadsRun (db : Db) (inputs : MatrixInputs) : Prop where
  jobs : ∀ job, job ∈ inputs.jobs ↔ job ∈ db.jobs ∧ job.runId = inputs.manifest.runId
  jobIds : (inputs.jobs.map Job.jobId).Nodup
  attemptIds : (inputs.attempts.map EvaluationAttempt.attemptId).Nodup
  stored : ∀ attempt ∈ inputs.attempts, ∃ row ∈ db.evaluationAttempts, Represents row attempt ∧
    ∃ job ∈ inputs.jobs, job.jobId = row.jobId
  listed : ∀ row ∈ db.evaluationAttempts, (∃ job ∈ inputs.jobs, job.jobId = row.jobId) →
    ∃ attempt ∈ inputs.attempts, Represents row attempt

structure RunPlanned (manifest : AuditManifest) (db : Db) : Prop extends RunPlan manifest db where
  planned : ∀ job ∈ db.jobs, job.runId = manifest.runId → job.cellKey ∈ manifest.plannedCells

theorem Enqueued.runPlanned {sha256 : List UInt8 → Digest} {manifest : AuditManifest} {db : Db}
    (h : Enqueued sha256 manifest db) : RunPlanned manifest db where
  toRunPlan := h.runPlan
  planned := by
    intro job hjob hrun
    obtain ⟨key, hkey, _, _, rfl⟩ := mem_expand.mp ((h.jobs job).mpr ⟨hjob, hrun⟩)
    exact hkey

theorem Evolves.runPlanned {db db' : Db} (h : Evolves Ledger.Step db db') {manifest : AuditManifest}
    (hplan : RunPlanned manifest db) : RunPlanned manifest db' where
  toRunPlan := h.runPlan hplan.toRunPlan
  planned := by
    intro job hjob hrun
    obtain ⟨old, hold, hsame⟩ := h.job_origin hjob
    rw [hsame.cellKey]
    exact hplan.planned old hold (hsame.runId ▸ hrun)

/-! ## Reading a cell -/

section Reading

variable {db : Db} {inputs : MatrixInputs} {key : String × String × String}

def MatrixInputs.cellJobs (inputs : MatrixInputs) (key : String × String × String) : List Job :=
  inputs.jobs.filter fun job => job.cellKey = key

theorem mem_cellJobs {job : Job} :
    job ∈ inputs.cellJobs key ↔ job ∈ inputs.jobs ∧ job.cellKey = key := by
  rw [MatrixInputs.cellJobs, List.mem_filter, decide_eq_true_eq]

/-- A cell of what was read is a cell of the queue. -/
theorem ReadsRun.cellOf (h : ReadsRun db inputs) (key : String × String × String) :
    CellOf db inputs.manifest.runId key (inputs.cellJobs key)
      (cellAttempts inputs.jobs inputs.attempts key) where
  members := by
    intro job
    rw [mem_cellJobs, h.jobs, and_assoc]
  ids := h.attemptIds.sublist (List.filter_sublist.map _)
  stored := by
    intro attempt hattempt
    obtain ⟨hmem, job, hfind, hkey⟩ := MatrixInputs.mem_cellAttempts.mp hattempt
    obtain ⟨row, hrow, hsame, _⟩ := h.stored attempt hmem
    obtain ⟨hjob, hid⟩ := mem_of_jobById hfind
    exact ⟨row, hrow, hsame, job, mem_cellJobs.mpr ⟨hjob, hkey⟩, hid.trans hsame.jobId⟩
  listed := by
    rintro row hrow ⟨job, hjob, hid⟩
    obtain ⟨hmem, hkey⟩ := mem_cellJobs.mp hjob
    obtain ⟨attempt, hattempt, hsame⟩ := h.listed row hrow ⟨job, hmem, hid⟩
    refine ⟨attempt, MatrixInputs.mem_cellAttempts.mpr ⟨hattempt, job, ?_, hkey⟩, hsame⟩
    exact (jobById_eq_some_iff h.jobIds).mpr ⟨hmem, hid.trans hsame.jobId.symm⟩

/-- For the attempts of a cell the jobs of the cell are all that count. -/
theorem ReadsRun.attemptsOf_eq (h : ReadsRun db inputs) (key : String × String × String)
    (rep : Nat) : inputs.attemptsOf key rep = attemptsAt inputs.manifest.maxRepetitions
      (jobRepetitionMap (inputs.cellJobs key)) (cellAttempts inputs.jobs inputs.attempts key)
        rep := by
  refine List.filter_congr fun attempt hattempt => ?_
  obtain ⟨_, job, hfind, hkey⟩ := MatrixInputs.mem_cellAttempts.mp hattempt
  obtain ⟨hjob, hid⟩ := mem_of_jobById hfind
  have hids : ((inputs.cellJobs key).map Job.jobId).Nodup :=
    h.jobIds.sublist (List.filter_sublist.map _)
  have hcell : jobById (inputs.cellJobs key) attempt.jobId = some job :=
    (jobById_eq_some_iff hids).mpr ⟨mem_cellJobs.mpr ⟨hjob, hkey⟩, hid⟩
  simp only [repetitionOf, jobRepetitionMap, hfind, hcell]

/-- The attempts at the coordinates of a job are those of the job. -/
theorem ReadsRun.mem_attemptsOf (hplan : RunPlanned inputs.manifest db) (h : ReadsRun db inputs)
    {job : Job} (hjob : job ∈ inputs.jobs) {rep : Nat} (hrep : job.repetition = rep)
    {attempt : EvaluationAttempt} : attempt ∈ inputs.attemptsOf job.cellKey rep ↔
      attempt ∈ inputs.attempts ∧ attempt.jobId = job.jobId := by
  rw [h.attemptsOf_eq, (h.cellOf job.cellKey).mem_attemptsAt hplan.toRunPlan
    (mem_cellJobs.mpr ⟨hjob, rfl⟩) hrep, MatrixInputs.mem_cellAttempts, and_assoc]
  refine and_congr_right fun _ => and_iff_right_of_imp ?_
  intro hid
  exact ⟨job, (jobById_eq_some_iff h.jobIds).mpr ⟨hjob, hid.symm⟩, rfl⟩

/-- Every planned coordinate of a cell has its job. -/
theorem ReadsRun.job_at (hplan : RunPlanned inputs.manifest db) (h : ReadsRun db inputs)
    (hkey : key ∈ cellKeys inputs.jobs) {rep : Nat}
    (hlt : (rep : Int) < inputs.manifest.maxRepetitions) :
    ∃ job ∈ inputs.jobs, job.cellKey = key ∧ job.repetition = rep := by
  obtain ⟨some, hsome, rfl⟩ := mem_cellKeys.mp hkey
  obtain ⟨hmem, hrun⟩ := (h.jobs some).mp hsome
  obtain ⟨job, hjob, hjobRun, hcell, hrep⟩ :=
    hplan.covers _ (hplan.planned some hmem hrun) rep hlt
  exact ⟨job, (h.jobs job).mpr ⟨hjob, hjobRun⟩, hcell, hrep⟩

end Reading

/-! ## Building -/

section Building

variable {sha256 : List UInt8 → Digest} {db : Db} {inputs : MatrixInputs} {reducerVersion : String}
  {now : Datetime} {matrix : AcceptanceMatrix}

/-- Rows have distinct keys, and every attempt belongs to a stored job. -/
theorem ReadsRun.identified (h : ReadsRun db inputs) : inputs.Identified where
  jobIds := h.jobIds
  attemptIds := h.attemptIds
  known := by
    intro attempt hattempt
    obtain ⟨row, _, hsame, job, hjob, hid⟩ := h.stored attempt hattempt
    exact ⟨job, hjob, hid.trans hsame.jobId.symm⟩

/-- Every cell of a reachable queue can be aggregated. -/
theorem ReadsRun.buildCell_ok (hinv : QueueInv db) (hplan : RunPlanned inputs.manifest db)
    (h : ReadsRun db inputs) (key : String × String × String) :
    ∃ cell, inputs.buildCell key = .ok cell := by
  apply aggregateCell_succeeds
  intro rep
  have hreduces := (h.cellOf key).reduces hinv hplan.toRunPlan rep
  rw [← h.attemptsOf_eq] at hreduces
  exact hreduces

/-- Within one job fences are distinct, so the reducer compares no start times. -/
theorem ReadsRun.builds (hinv : QueueInv db) (hplan : RunPlanned inputs.manifest db)
    (h : ReadsRun db inputs) :
    ∃ matrix, buildMatrix sha256 inputs reducerVersion now = .ok matrix := by
  choose cell hcell using h.buildCell_ok hinv hplan
  have hcells : (cellKeys inputs.jobs).mapM inputs.buildCell =
      .ok ((cellKeys inputs.jobs).map cell) := by
    rw [mapM_eq_ok, List.forall₂_map_right_iff, List.forall₂_same]
    intro key _
    exact hcell key
  obtain ⟨matrix, hmatrix, _⟩ := buildMatrix_returns h.identified hcells
  exact ⟨matrix, hmatrix⟩

/-- A matrix of the run is complete when every job has finished with an attempt
that was selected. -/
theorem ReadsRun.complete_iff (hinv : QueueInv db) (hplan : RunPlanned inputs.manifest db)
    (h : ReadsRun db inputs) (hbuilt : Built sha256 inputs reducerVersion matrix) :
    matrix.complete = true ↔ ∀ job ∈ inputs.jobs,
      job.state.isFinished = true ∧ job.selectedAttemptId.isSome = true := by
  constructor
  · intro hcomplete job hjob
    obtain ⟨hterminal, hfull⟩ := hbuilt.of_complete hcomplete
    obtain ⟨hmem, hrun⟩ := (h.jobs job).mp hjob
    obtain ⟨rep, hrep, hlt⟩ := hplan.inRange job hmem hrun
    obtain ⟨cell, hcell, hcellBuilt⟩ := hbuilt.cell_of_key (mem_cellKeys.mpr ⟨job, hjob, rfl⟩)
    obtain ⟨a, ha⟩ := (hcellBuilt.full_iff.mp (hfull cell hcell)).2 rep hlt
    rw [h.attemptsOf_eq] at ha
    -- A preferred attempt that is not selected belongs to a held job, and none is left.
    rcases (h.cellOf job.cellKey).preferred_cases hinv hplan.toRunPlan
      (mem_cellJobs.mpr ⟨hjob, rfl⟩) hrep ha with hselected | ⟨hheld, _⟩
    · refine ⟨((hinv.of_mem hmem).selection _ hselected).1, ?_⟩
      rw [hselected]
      rfl
    · exact absurd hheld (not_held_of_terminal (hterminal job hjob))
  · intro hdone
    rw [hbuilt.complete, MatrixInputs.isComplete, Bool.and_eq_true, List.all_eq_true,
      List.all_eq_true]
    constructor
    · intro job hjob
      rcases JobState.isFinished_iff.mp (hdone job hjob).1 with hstate | hstate <;>
        rw [hstate] <;> rfl
    · intro cell hcell
      obtain ⟨key, hkey, hcellBuilt⟩ := hbuilt.key_of_cell hcell
      rw [decide_eq_true_eq, hcellBuilt.full_iff]
      obtain ⟨some, hsome, rfl⟩ := mem_cellKeys.mp hkey
      obtain ⟨hmem, hrun⟩ := (h.jobs some).mp hsome
      obtain ⟨_, _, hpos⟩ := hplan.inRange some hmem hrun
      refine ⟨by omega, ?_⟩
      intro rep hlt
      -- The plan gives each repetition a job, and its selected attempt fills it.
      obtain ⟨job, hjob, hjobKey, hrep⟩ := h.job_at hplan hkey hlt
      obtain ⟨id, hid⟩ := Option.isSome_iff_exists.mp (hdone job hjob).2
      obtain ⟨a, ha, _⟩ := (h.cellOf some.cellKey).preferred_of_selected hinv hplan.toRunPlan
        (mem_cellJobs.mpr ⟨hjob, hjobKey⟩) hrep hid
      rw [← h.attemptsOf_eq] at ha
      exact ⟨a, ha⟩

/-- The cells are the planned ones. -/
theorem ReadsRun.cells_iff (hplan : RunPlanned inputs.manifest db)
    (hpos : 1 ≤ inputs.manifest.maxRepetitions) (h : ReadsRun db inputs)
    (hbuilt : Built sha256 inputs reducerVersion matrix) (key : String × String × String) :
    (∃ cell ∈ matrix.cells, (cell.taskKey, cell.caseId, cell.verifierKey) = key) ↔
      key ∈ inputs.manifest.plannedCells := by
  constructor
  · rintro ⟨cell, hcell, rfl⟩
    obtain ⟨key, hkey, hcellBuilt⟩ := hbuilt.key_of_cell hcell
    obtain ⟨job, hjob, rfl⟩ := mem_cellKeys.mp hkey
    obtain ⟨hmem, hrun⟩ := (h.jobs job).mp hjob
    rw [hcellBuilt.key_eq]
    exact hplan.planned job hmem hrun
  · intro hkey
    obtain ⟨job, hjob, hrun, rfl, _⟩ := hplan.covers key hkey 0 hpos
    obtain ⟨cell, hcell, hcellBuilt⟩ := hbuilt.cell_of_key
      (mem_cellKeys.mpr ⟨job, (h.jobs job).mpr ⟨hjob, hrun⟩, rfl⟩)
    exact ⟨cell, hcell, hcellBuilt.key_eq⟩

end Building

/-! ## Final cells -/

/-- The rows of a finished job stay under their identities, and none is added. Late evidence may
still be written into a row, but not into an authoritative one. -/
theorem Evolves.finished_rows {db db' : Db} (h : Evolves Ledger.Step db db') (hinv : QueueInv db)
    {job : Job} (hjob : job ∈ db.jobs) (hfinished : job.state.isFinished = true) :
    job ∈ db'.jobs ∧
      (∀ row ∈ (db.ledgerOf job).attempts, ∃ row' ∈ (db'.ledgerOf job).attempts,
        SameIdentity row row') ∧
      (∀ row' ∈ (db'.ledgerOf job).attempts, ∃ row ∈ (db.ledgerOf job).attempts,
        SameIdentity row row') ∧
      ∀ row ∈ (db.ledgerOf job).attempts, row.disposition = .authoritative →
        row ∈ (db'.ledgerOf job).attempts := by
  obtain ⟨l', hl', hpath⟩ := h.ledger _ _ (ledger_of_find? (Table.find?_of_mem hjob))
  have hgrows : Ledger.Grows (db.ledgerOf job) l' :=
    Evolves.path_induction (fun _ _ hstep hgrows => hgrows.trans hstep.grows) hpath (.refl _)
  obtain ⟨hsame, hkept⟩ := hgrows.frozen hfinished
  obtain ⟨hfind, hattempts⟩ := ledger_eq_some_iff.mp hl'
  have hjobSame : l'.job = job := hsame
  have hledger : db'.ledgerOf job = l' := by
    obtain ⟨own, attempts⟩ := l'
    subst hjobSame
    exact congrArg (Ledger.mk own) hattempts.symm
  rw [hjobSame] at hfind
  have hjob' : job ∈ db'.jobs := Table.mem_of_find? hfind
  rw [hledger]
  refine ⟨hjob', hgrows.rows, ?_, hkept⟩
  intro row' hrow'
  have hnumbered := (hinv.of_mem hjob).numbered
  have hnumbered' := ((h.queueInv hinv).of_mem hjob').numbered
  rw [hledger, hsame] at hnumbered'
  -- the row's fence was given out before, and to a row that is still there
  obtain ⟨hpos, hle⟩ := hnumbered'.fence_pos hrow'
  obtain ⟨row, hrow, hfence⟩ := hnumbered.exists_fence hpos hle
  obtain ⟨later, hlater, hidentity⟩ := hgrows.rows row hrow
  obtain rfl := hnumbered'.eq_of_fence hlater hrow' (hidentity.fence.trans hfence)
  exact ⟨row, hrow, hidentity⟩

/-- Reduced results that look the same in a cell, up to the order of exclusions. -/
structure SameReading (result result' : RepetitionResult) : Prop where
  selected : result'.selected.map EvaluationAttempt.attemptId =
    result.selected.map EvaluationAttempt.attemptId
  outcome : result'.outcome = result.outcome
  diagnosticCode : result'.diagnosticCode = result.diagnosticCode
  excluded : result'.excluded.Perm result.excluded

/-- A cell shows no more of its repetitions than the reading of each. -/
theorem assembleCell_sameReading (header : CellHeader) (planned : Int)
    {results results' : List RepetitionResult}
    (hresults : List.Forall₂ SameReading results results') :
    EqualCells (assembleCell header planned [] results)
      (assembleCell header planned [] results') := by
  have houtcomes : results.map RepetitionResult.outcome = results'.map RepetitionResult.outcome :=
    map_eq_of_forall₂ hresults fun _ _ _ h => h.outcome.symm
  have hcodes : results.map RepetitionResult.diagnosticCode =
      results'.map RepetitionResult.diagnosticCode :=
    map_eq_of_forall₂ hresults fun _ _ _ h => h.diagnosticCode.symm
  have hselected : results.map (fun result => result.selected.map EvaluationAttempt.attemptId) =
      results'.map fun result => result.selected.map EvaluationAttempt.attemptId :=
    map_eq_of_forall₂ hresults fun _ _ _ h => h.selected.symm
  have hcodesKept : results.filterMap RepetitionResult.diagnosticCode =
      results'.filterMap RepetitionResult.diagnosticCode := by
    have hmap := congrArg (List.filterMap id) hcodes
    rwa [List.filterMap_map, List.filterMap_map] at hmap
  have hselectedKept : results.filterMap
      (fun result => result.selected.map EvaluationAttempt.attemptId) =
        results'.filterMap fun result => result.selected.map EvaluationAttempt.attemptId := by
    have hmap := congrArg (List.filterMap id) hselected
    rwa [List.filterMap_map, List.filterMap_map] at hmap
  refine ⟨?_, ?_⟩
  · simp only [assembleCell, houtcomes, hcodesKept, hselectedKept]
  · simp only [assembleCell, List.map_nil, List.nil_append]
    exact flatMap_perm_of_forall₂ (hresults.flip.imp fun _ _ h => h.excluded)

section Final

variable {sha256 : List UInt8 → Digest} {db db' : Db} {inputs : MatrixInputs}
  {reducerVersion : String} {now now' : Datetime} {matrix : AcceptanceMatrix} {jobs : List Job}
  {attempts : List EvaluationAttempt}

/-- No attempt of a planned run is left out of its cell's repetitions. -/
theorem ReadsRun.unmapped_eq_nil (hplan : RunPlanned inputs.manifest db) (h : ReadsRun db inputs)
    (key : String × String × String) :
    unmappedAttempts inputs.manifest.maxRepetitions (jobRepetitionMap inputs.jobs)
      (cellAttempts inputs.jobs inputs.attempts key) = [] := by
  rw [unmappedAttempts, List.filter_eq_nil_iff]
  intro attempt hattempt
  obtain ⟨_, job, hfind, _⟩ := MatrixInputs.mem_cellAttempts.mp hattempt
  obtain ⟨hmem, hrun⟩ := (h.jobs job).mp (mem_of_jobById hfind).1
  obtain ⟨rep, hrep, hlt⟩ := hplan.inRange job hmem hrun
  simp only [repetitionOf, jobRepetitionMap, hfind, Option.map_some, hrep]
  rw [if_neg (by omega)]
  simp

/-- Of a finished job the same attempts are read later, under the same ids. Rows keep their
identity, whatever evidence they are given later, and an id is part of it. -/
theorem ReadsRun.ids_perm (hevolves : Evolves Ledger.Step db db') (hinv : QueueInv db)
    (hplan : RunPlanned inputs.manifest db) (h : ReadsRun db inputs)
    (hplan' : RunPlanned (inputs.listing jobs attempts).manifest db')
    (h' : ReadsRun db' (inputs.listing jobs attempts))
    {job : Job} (hjob : job ∈ inputs.jobs) (hjob' : job ∈ jobs)
    (hfinished : job.state.isFinished = true) {rep : Nat} (hrep : job.repetition = rep) :
    (((inputs.listing jobs attempts).attemptsOf job.cellKey rep).map
        EvaluationAttempt.attemptId).Perm
      ((inputs.attemptsOf job.cellKey rep).map EvaluationAttempt.attemptId) := by
  -- A finished job has the rows it had; each is listed in both readings.
  obtain ⟨_, hforward, hbackward, _⟩ :=
    hevolves.finished_rows hinv ((h.jobs job).mp hjob).1 hfinished
  apply (List.perm_ext_iff_of_nodup _ _).mpr
  · intro id
    simp only [List.mem_map]
    constructor
    · rintro ⟨attempt, hattempt, rfl⟩
      obtain ⟨hmem, hid⟩ := (h'.mem_attemptsOf hplan' hjob' hrep).mp hattempt
      obtain ⟨row', hrow', hsame', _⟩ := h'.stored attempt hmem
      obtain ⟨row, hrow, hidentity⟩ :=
        hbackward row' (mem_ledgerOf.mpr ⟨hrow', hsame'.jobId.symm.trans hid⟩)
      obtain ⟨hstored, hjobId⟩ := mem_ledgerOf.mp hrow
      obtain ⟨old, hold, hsame⟩ := h.listed row hstored ⟨job, hjob, hjobId.symm⟩
      refine ⟨old, (h.mem_attemptsOf hplan hjob hrep).mpr ⟨hold, hsame.jobId.trans hjobId⟩, ?_⟩
      rw [hsame.attemptId, hsame'.attemptId, hidentity.attemptId]
    · rintro ⟨attempt, hattempt, rfl⟩
      obtain ⟨hmem, hid⟩ := (h.mem_attemptsOf hplan hjob hrep).mp hattempt
      obtain ⟨row, hrow, hsame, _⟩ := h.stored attempt hmem
      obtain ⟨row', hrow', hidentity⟩ :=
        hforward row (mem_ledgerOf.mpr ⟨hrow, hsame.jobId.symm.trans hid⟩)
      obtain ⟨hstored, hjobId⟩ := mem_ledgerOf.mp hrow'
      obtain ⟨new, hnew, hsame'⟩ := h'.listed row' hstored ⟨job, hjob', hjobId.symm⟩
      refine ⟨new, (h'.mem_attemptsOf hplan' hjob' hrep).mpr ⟨hnew, hsame'.jobId.trans hjobId⟩, ?_⟩
      rw [hsame'.attemptId, hsame.attemptId, hidentity.attemptId]
  · exact attemptsAt_ids_nodup (h'.attemptIds.sublist (List.filter_sublist.map _)) rep
  · exact attemptsAt_ids_nodup (h.attemptIds.sublist (List.filter_sublist.map _)) rep

/-- Of a finished job the attempt that was selected is read alike later. It is the one the job
selected, and without a selection no attempt stands for the repetition. -/
theorem ReadsRun.preferred_same (hevolves : Evolves Ledger.Step db db') (hinv : QueueInv db)
    (hplan : RunPlanned inputs.manifest db) (h : ReadsRun db inputs)
    (hplan' : RunPlanned (inputs.listing jobs attempts).manifest db')
    (h' : ReadsRun db' (inputs.listing jobs attempts))
    {job : Job} (hjob : job ∈ inputs.jobs) (hjob' : job ∈ jobs)
    (hfinished : job.state.isFinished = true) {rep : Nat} (hrep : job.repetition = rep) :
    (∃ a a', Preferred (inputs.attemptsOf job.cellKey rep) a ∧
      Preferred ((inputs.listing jobs attempts).attemptsOf job.cellKey rep) a' ∧
        a'.attemptId = a.attemptId ∧ a'.outcome = a.outcome ∧ a'.errorCode = a.errorCode) ∨
    ((∀ a, ¬ Preferred (inputs.attemptsOf job.cellKey rep) a) ∧
      ∀ a, ¬ Preferred ((inputs.listing jobs attempts).attemptsOf job.cellKey rep) a) := by
  have hmem := ((h.jobs job).mp hjob).1
  obtain ⟨hmem', _, _, hkept⟩ := hevolves.finished_rows hinv hmem hfinished
  have hinv' := hevolves.queueInv hinv
  have hcell := h.cellOf job.cellKey
  have hcell' := h'.cellOf job.cellKey
  have hown := mem_cellJobs.mpr ⟨hjob, rfl⟩
  have hown' : job ∈ (inputs.listing jobs attempts).cellJobs job.cellKey :=
    mem_cellJobs.mpr ⟨hjob', rfl⟩
  rw [h.attemptsOf_eq, h'.attemptsOf_eq]
  cases hselected : job.selectedAttemptId with
  | some id =>
      obtain ⟨a, ha, haId, _⟩ :=
        hcell.preferred_of_selected hinv hplan.toRunPlan hown hrep hselected
      obtain ⟨a', ha', haId', _⟩ :=
        hcell'.preferred_of_selected hinv' hplan'.toRunPlan hown' hrep hselected
      obtain ⟨haMem, haJob⟩ := (hcell.mem_attemptsAt hplan.toRunPlan hown hrep).mp ha.mem
      obtain ⟨haMem', haJob'⟩ := (hcell'.mem_attemptsAt hplan'.toRunPlan hown' hrep).mp ha'.mem
      obtain ⟨row, hrow, hsame⟩ := hcell.row haMem haJob
      obtain ⟨row', hrow', hsame'⟩ := hcell'.row haMem' haJob'
      -- the selected row is authoritative, and so the same row later
      obtain ⟨_, auth, hauth, hauthId, hdisposition, _⟩ := (hinv.of_mem hmem).selection id hselected
      have hnumbered := (hinv.of_mem hmem).numbered
      have hnumbered' := (hinv'.of_mem hmem').numbered
      obtain rfl := hnumbered.eq_of_id hrow hauth
        (hsame.attemptId.symm.trans (haId.trans hauthId.symm))
      obtain rfl := hnumbered'.eq_of_id hrow' (hkept row hrow hdisposition)
        (hsame'.attemptId.symm.trans (haId'.trans hauthId.symm))
      exact Or.inl ⟨a, a', ha, ha', haId'.trans haId.symm, hsame'.outcome.trans hsame.outcome.symm,
        hsame'.errorCode.trans hsame.errorCode.symm⟩
  | none =>
      have hheld : job.state.isHeld ≠ true := by
        rcases JobState.isFinished_iff.mp hfinished with hstate | hstate <;> rw [hstate] <;> decide
      refine Or.inr ⟨?_, ?_⟩
      · intro a ha
        rcases hcell.preferred_cases hinv hplan.toRunPlan hown hrep ha with hsome | ⟨hstill, _⟩
        · rw [hselected] at hsome
          cases hsome
        · exact hheld hstill
      · intro a ha
        rcases hcell'.preferred_cases hinv' hplan'.toRunPlan hown' hrep ha with hsome | ⟨hstill, _⟩
        · rw [hselected] at hsome
          cases hsome
        · exact hheld hstill

/-- Of a finished run the same jobs are read later. -/
theorem ReadsRun.jobs_perm (hevolves : Evolves Ledger.Step db db') (hinv : QueueInv db)
    (h : ReadsRun db inputs) (h' : ReadsRun db' (inputs.listing jobs attempts))
    (hfinished : ∀ job ∈ inputs.jobs, job.state.isFinished = true) : jobs.Perm inputs.jobs := by
  apply (List.perm_ext_iff_of_nodup (List.Nodup.of_map _ h'.jobIds)
    (List.Nodup.of_map _ h.jobIds)).mpr
  intro job
  constructor
  · intro hjob
    obtain ⟨hmem', hrun⟩ := (h'.jobs job).mp hjob
    obtain ⟨old, hold, hsame⟩ := hevolves.job_origin hmem'
    have hread := (h.jobs old).mpr ⟨hold, hsame.runId.symm.trans hrun⟩
    obtain ⟨hold', _⟩ := hevolves.finished_rows hinv hold (hfinished old hread)
    obtain rfl := Table.eq_of_key_eq hold' hmem' hsame.jobId.symm
    exact hread
  · intro hjob
    obtain ⟨hmem, hrun⟩ := (h.jobs job).mp hjob
    obtain ⟨hmem', _⟩ := hevolves.finished_rows hinv hmem (hfinished job hjob)
    exact (h'.jobs job).mpr ⟨hmem', hrun⟩

/-- A repetition of a finished job is reduced alike later. The same attempt is selected, and
what is excluded are all others. -/
theorem ReadsRun.reduces_same (hevolves : Evolves Ledger.Step db db') (hinv : QueueInv db)
    (hplan : RunPlanned inputs.manifest db) (h : ReadsRun db inputs)
    (hplan' : RunPlanned (inputs.listing jobs attempts).manifest db')
    (h' : ReadsRun db' (inputs.listing jobs attempts))
    {job : Job} (hjob : job ∈ inputs.jobs) (hjob' : job ∈ jobs)
    (hfinished : job.state.isFinished = true) {rep : Nat} (hrep : job.repetition = rep)
    {result : RepetitionResult}
    (hresult : reduceRepetition (inputs.attemptsOf job.cellKey rep) = .ok result) :
    ∃ result', reduceRepetition ((inputs.listing jobs attempts).attemptsOf job.cellKey rep) =
      .ok result' ∧ SameReading result result' := by
  have hreduces := (h'.cellOf job.cellKey).reduces (hevolves.queueInv hinv) hplan'.toRunPlan rep
  rw [← h'.attemptsOf_eq] at hreduces
  obtain ⟨result', hresult'⟩ := hreduces
  have hids : ((inputs.attemptsOf job.cellKey rep).map EvaluationAttempt.attemptId).Nodup :=
    attemptsAt_ids_nodup (h.attemptIds.sublist (List.filter_sublist.map _)) rep
  have hids' : (((inputs.listing jobs attempts).attemptsOf job.cellKey rep).map
      EvaluationAttempt.attemptId).Nodup :=
    attemptsAt_ids_nodup (h'.attemptIds.sublist (List.filter_sublist.map _)) rep
  have hspec := reduceRepetition_spec hresult hids
  have hspec' := reduceRepetition_spec hresult' hids'
  have hselected : result'.selected.map EvaluationAttempt.attemptId =
      result.selected.map EvaluationAttempt.attemptId ∧
      result'.outcome = result.outcome ∧ result'.diagnosticCode = result.diagnosticCode := by
    rcases h.preferred_same hevolves hinv hplan hplan' h' hjob hjob' hfinished hrep with
      ⟨a, a', ha, ha', hid, houtcome, hcode⟩ | ⟨hnone, hnone'⟩
    · have hsome := (hspec.selected a).mpr ha
      have hsome' := (hspec'.selected a').mpr ha'
      simp only [RepetitionResult.outcome, RepetitionResult.diagnosticCode, hsome, hsome',
        Option.map_some, Option.bind_some, hid, houtcome, hcode, and_self]
    · have hnothing : result.selected = none :=
        Option.eq_none_iff_forall_ne_some.mpr fun a ha => hnone a ((hspec.selected a).mp ha)
      have hnothing' : result'.selected = none :=
        Option.eq_none_iff_forall_ne_some.mpr fun a ha => hnone' a ((hspec'.selected a).mp ha)
      simp only [RepetitionResult.outcome, RepetitionResult.diagnosticCode, hnothing, hnothing',
        Option.map_none, and_self]
  refine ⟨result', hresult', hselected.1, hselected.2.1, hselected.2.2, ?_⟩
  have hperm := h.ids_perm hevolves hinv hplan hplan' h' hjob hjob' hfinished hrep
  have hfilter := hperm.filter fun id =>
    decide (result.selected.map EvaluationAttempt.attemptId ≠ some id)
  rw [List.filter_map, List.filter_map] at hfilter
  rw [reduceRepetition_excluded hresult, reduceRepetition_excluded hresult', hselected.1]
  exact hfilter

/-- A cell of finished jobs is aggregated alike later. Each of its repetitions belongs to a job
of the run, and no attempt in the cell belongs to another. -/
theorem ReadsRun.buildCell_same (hevolves : Evolves Ledger.Step db db') (hinv : QueueInv db)
    (hplan : RunPlanned inputs.manifest db) (h : ReadsRun db inputs)
    (hplan' : RunPlanned (inputs.listing jobs attempts).manifest db')
    (h' : ReadsRun db' (inputs.listing jobs attempts))
    (hfinished : ∀ job ∈ inputs.jobs, job.state.isFinished = true)
    (hjobs : ∀ job ∈ inputs.jobs, job ∈ jobs) {key : String × String × String}
    (hkey : key ∈ cellKeys inputs.jobs) {cell : AcceptanceCell}
    (hcell : inputs.buildCell key = .ok cell) :
    ∃ cell', (inputs.listing jobs attempts).buildCell key = .ok cell' ∧ EqualCells cell cell' := by
  obtain ⟨results, hresults, heq⟩ := bind_eq_ok.mp hcell
  obtain rfl := Except.ok.inj heq
  have hextend : ∀ rep ∈ List.range inputs.manifest.maxRepetitions.toNat, ∀ result,
      reduceRepetition (inputs.attemptsOf key rep) = .ok result →
        ∃ result', reduceRepetition ((inputs.listing jobs attempts).attemptsOf key rep) =
          .ok result' ∧ SameReading result result' := by
    intro rep hrep result hresult
    rw [List.mem_range] at hrep
    have hlt : (rep : Int) < inputs.manifest.maxRepetitions := by omega
    obtain ⟨job, hjob, rfl, hjobRep⟩ := h.job_at hplan hkey hlt
    exact h.reduces_same hevolves hinv hplan hplan' h' hjob (hjobs job hjob) (hfinished job hjob)
      hjobRep hresult
  obtain ⟨results', hresults', hsame⟩ := forall₂_extend (mapM_eq_ok.mp hresults) hextend
  refine ⟨_, bind_eq_ok.mpr ⟨results', mapM_eq_ok.mpr hresults', rfl⟩, ?_⟩
  rw [h.unmapped_eq_nil hplan, h'.unmapped_eq_nil hplan']
  exact assembleCell_sameReading (inputs.header key) inputs.manifest.maxRepetitions hsame

end Final

/-! ## Every run of the queue -/

/-- In every reachable state of a planned run the matrix of its jobs can be
built, has the planned cells, and is complete exactly if every job has finished
with a selected attempt. -/
theorem matrix_of_run {sha256 hash : List UInt8 → Digest} {db : Db} {inputs : MatrixInputs}
    (hfresh : db.Fresh) (henqueued : Enqueued hash inputs.manifest db)
    (hpos : 1 ≤ inputs.manifest.maxRepetitions) (ops : List Operation)
    (hreads : ReadsRun (Transition.run Db.call db ops) inputs) (reducerVersion : String)
    (now : Datetime) :
    ∃ matrix, buildMatrix sha256 inputs reducerVersion now = .ok matrix ∧
      (∀ key, (∃ cell ∈ matrix.cells, (cell.taskKey, cell.caseId, cell.verifierKey) = key) ↔
        key ∈ inputs.manifest.plannedCells) ∧
      (matrix.complete = true ↔ ∀ job ∈ (Transition.run Db.call db ops).jobs,
        job.runId = inputs.manifest.runId →
          (job.state = .done ∨ job.state = .failed) ∧ job.selectedAttemptId.isSome = true) := by
  have hinv := run_queueInv (.of_fresh hfresh) ops
  have hplan := (run_evolves (.of_fresh hfresh) ops).runPlanned henqueued.runPlanned
  obtain ⟨matrix, hbuild⟩ : ∃ matrix, buildMatrix sha256 inputs reducerVersion now = .ok matrix :=
    hreads.builds hinv hplan
  have hbuilt := buildMatrix_ok hbuild
  refine ⟨matrix, hbuild, hreads.cells_iff hplan hpos hbuilt, ?_⟩
  rw [hreads.complete_iff hinv hplan hbuilt]
  simp only [hreads.jobs, and_imp, JobState.isFinished_iff]

/-- The small run read off a queue in which the candidate's job is done. -/
theorem readsRun_small {db : Db} {other : Job} (hjobs : db.jobs.rows = [doneJob, other])
    (hrun : other.runId = "run") (hid : other.jobId = baselineDigest.text)
    (hattempts : ∃ row, db.evaluationAttempts.rows = [row] ∧
      Represents row (acceptingAttempt "attempt" candidateDigest.text 1)) :
    ReadsRun db (smallInputs.listing [doneJob, other]
      [acceptingAttempt "attempt" candidateDigest.text 1]) where
  jobs := by
    intro job
    rw [Table.mem_def, hjobs]
    refine ⟨fun hjob => ⟨hjob, ?_⟩, And.left⟩
    rcases List.mem_pair.mp hjob with rfl | rfl
    · rfl
    · exact hrun
  jobIds := by
    have hne : doneJob.jobId ≠ other.jobId := by
      rw [hid]
      decide
    simpa [MatrixInputs.listing] using hne
  attemptIds := List.nodup_singleton _
  stored := by
    intro attempt hattempt
    obtain rfl := List.mem_singleton.mp hattempt
    obtain ⟨row, hrows, hsame⟩ := hattempts
    refine ⟨row, ?_, hsame, doneJob, List.mem_cons_self, hsame.jobId⟩
    rw [Table.mem_def, hrows]
    exact List.mem_singleton_self row
  listed := by
    intro row hrow _
    obtain ⟨stored, hrows, hsame⟩ := hattempts
    rw [Table.mem_def, hrows, List.mem_singleton] at hrow
    exact ⟨_, List.mem_singleton_self _, hrow ▸ hsame⟩

/-- One job is done and the other one still planned, so the matrix is not complete. -/
theorem matrix_of_run_small :
    ∃ matrix, buildMatrix matrixSha256 (smallInputs.listing
        [doneJob, plannedJob baselineDigest.text]
        [acceptingAttempt "attempt" candidateDigest.text 1]) defaultReducerVersion
          smallManifest.timestamp = .ok matrix ∧
      (∀ key, (∃ cell ∈ matrix.cells, (cell.taskKey, cell.caseId, cell.verifierKey) = key) ↔
        key ∈ smallManifest.plannedCells) ∧
      (matrix.complete = true ↔ ∀ job ∈ (Transition.run Db.call planDb planRun).jobs,
        job.runId = "run" →
          (job.state = .done ∨ job.state = .failed) ∧ job.selectedAttemptId.isSome = true) :=
  matrix_of_run planDb_fresh planDb_enqueued (by decide) planRun
    (readsRun_small jobs_planRun rfl rfl attempts_planRun) _ _

/-- Once every job of a planned run is finished the cells of its matrix are
final: late submissions, claims, reaps and cancellations change no verdict. -/
theorem finished_cells_final {sha256 hash : List UInt8 → Digest} {db : Db} {inputs : MatrixInputs}
    {jobs : List Job} {attempts : List EvaluationAttempt} (hfresh : db.Fresh)
    (henqueued : Enqueued hash inputs.manifest db) (first later : List Operation)
    (hreads : ReadsRun (Transition.run Db.call db first) inputs)
    (hfinished : ∀ job ∈ inputs.jobs, job.state = .done ∨ job.state = .failed)
    (hlater : ReadsRun (Transition.run Db.call db (first ++ later)) (inputs.listing jobs attempts))
    {reducerVersion : String} {now : Datetime} {matrix : AcceptanceMatrix}
    (hbuild : buildMatrix sha256 inputs reducerVersion now = .ok matrix) (now' : Datetime) :
    ∃ matrix', buildMatrix sha256 (inputs.listing jobs attempts) reducerVersion now' = .ok matrix' ∧
      List.Forall₂ EqualCells matrix.cells matrix'.cells ∧ matrix'.complete = matrix.complete := by
  have hinv := run_queueInv (.of_fresh hfresh) first
  have hevolves := run_evolves hinv later
  rw [← Transition.run_append] at hevolves
  have hplan := (run_evolves (.of_fresh hfresh) first).runPlanned henqueued.runPlanned
  have hplan' : RunPlanned (inputs.listing jobs attempts).manifest
      (Transition.run Db.call db (first ++ later)) := hevolves.runPlanned hplan
  have hover : ∀ job ∈ inputs.jobs, job.state.isFinished = true := fun job hjob =>
    JobState.isFinished_iff.mpr (hfinished job hjob)
  have hperm := hreads.jobs_perm hevolves hinv hlater hover
  have hkeys : cellKeys (inputs.listing jobs attempts).jobs = cellKeys inputs.jobs :=
    cellKeys_perm hperm
  obtain ⟨cells', hcells', hequal⟩ := forall₂_extend (mapM_eq_ok.mp (buildMatrix_cells hbuild))
    fun key hkey cell hcell => hreads.buildCell_same hevolves hinv hplan hplan' hlater hover
      (fun job hjob => hperm.mem_iff.mpr hjob) hkey hcell
  rw [← hkeys, ← mapM_eq_ok] at hcells'
  obtain ⟨matrix', hbuild', rfl⟩ := buildMatrix_returns hlater.identified hcells'
  refine ⟨matrix', hbuild', hequal, ?_⟩
  rw [(buildMatrix_ok hbuild').complete, (buildMatrix_ok hbuild).complete]
  exact isComplete_listing hperm hequal

/-- The run is cancelled before the second job was claimed. -/
def cancelledPlan : List Operation :=
  planRun ++ [.requestCancel "run" 2000]

theorem jobs_cancelledPlan : (Transition.run Db.call planDb cancelledPlan).jobs.rows =
    [doneJob, cancelledRow (plannedJob baselineDigest.text)] := by
  rfl

theorem jobs_cancelledPlan_later :
    (Transition.run Db.call planDb (cancelledPlan ++ [.reapExpired 90000 none])).jobs.rows =
      [doneJob, cancelledRow (plannedJob baselineDigest.text)] := by
  rfl

theorem attempts_cancelledPlan : ∃ row,
    (Transition.run Db.call planDb cancelledPlan).evaluationAttempts.rows = [row] ∧
      Represents row (acceptingAttempt "attempt" candidateDigest.text 1) :=
  ⟨_, rfl, rfl, rfl, rfl, rfl, rfl, rfl, rfl⟩

theorem attempts_cancelledPlan_later : ∃ row,
    (Transition.run Db.call planDb
        (cancelledPlan ++ [.reapExpired 90000 none])).evaluationAttempts.rows = [row] ∧
      Represents row (acceptingAttempt "attempt" candidateDigest.text 1) :=
  ⟨_, rfl, rfl, rfl, rfl, rfl, rfl, rfl, rfl⟩

/-- What is read of the cancelled run, now and later. -/
def cancelledInputs : MatrixInputs :=
  smallInputs.listing [doneJob, cancelledRow (plannedJob baselineDigest.text)]
    [acceptingAttempt "attempt" candidateDigest.text 1]

theorem cancelledInputs_finished : ∀ job ∈ cancelledInputs.jobs,
    job.state = .done ∨ job.state = .failed := by
  decide

/-- The run is cancelled after its first job was claimed; what is late changes no cell. -/
theorem finished_cells_final_small : ∃ matrix matrix',
    buildMatrix matrixSha256 cancelledInputs defaultReducerVersion smallManifest.timestamp =
        .ok matrix ∧
      buildMatrix matrixSha256 cancelledInputs defaultReducerVersion smallManifest.timestamp =
        .ok matrix' ∧
      List.Forall₂ EqualCells matrix.cells matrix'.cells ∧ matrix'.complete = matrix.complete := by
  have hreads : ReadsRun (Transition.run Db.call planDb cancelledPlan) cancelledInputs :=
    readsRun_small jobs_cancelledPlan rfl rfl attempts_cancelledPlan
  have hplan := (run_evolves (.of_fresh planDb_fresh) cancelledPlan).runPlanned
    planDb_enqueued.runPlanned
  obtain ⟨matrix, hbuild⟩ : ∃ matrix, buildMatrix matrixSha256 cancelledInputs
      defaultReducerVersion smallManifest.timestamp = .ok matrix :=
    hreads.builds (run_queueInv (.of_fresh planDb_fresh) cancelledPlan) hplan
  obtain ⟨matrix', hbuild', hsame⟩ :=
    finished_cells_final planDb_fresh planDb_enqueued cancelledPlan
    [.reapExpired 90000 none] hreads cancelledInputs_finished
    (readsRun_small jobs_cancelledPlan_later rfl rfl attempts_cancelledPlan_later) hbuild
    smallManifest.timestamp
  exact ⟨matrix, matrix', hbuild, hbuild', hsame⟩

end VerifierCI
