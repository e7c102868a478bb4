import VerifierCI.Execution.AttemptAccounts
import VerifierCI.Execution.MatrixCells
import VerifierCI.Python.Dict
import VerifierCI.Python.Sorted

/-! # The order of jobs and attempts

A matrix does not depend on the order in which jobs and attempts are listed,
except that an order may bring start times together that cannot be compared.
-/

namespace VerifierCI

open Python

/-! ## The same matrix -/

structure EqualCells (cell cell' : AcceptanceCell) : Prop where
  eq : cell' = { cell with excludedAttemptIds := cell'.excludedAttemptIds }
  excluded : cell'.excludedAttemptIds.Perm cell.excludedAttemptIds

structure EqualMatrices (matrix matrix' : AcceptanceMatrix) : Prop where
  matrixId : matrix'.matrixId = matrix.matrixId
  sourceAttemptsDigest : matrix'.sourceAttemptsDigest = matrix.sourceAttemptsDigest
  complete : matrix'.complete = matrix.complete
  cells : List.Forall₂ EqualCells matrix.cells matrix'.cells

/-- The same inputs with other lists of jobs and attempts. -/
def MatrixInputs.listing (inputs : MatrixInputs) (jobs : List Job)
    (attempts : List EvaluationAttempt) : MatrixInputs :=
  { inputs with jobs := jobs, attempts := attempts }

/-! ## Conflicts -/

/-- An `IdentityConflict` is raised. -/
def Conflicts {α : Type} (result : Except Exc α) : Prop :=
  ∃ message code, result = .error (.verifierCI .identityConflict message code)

theorem Conflicts.bind {α β : Type} {result : Except Exc α} (h : Conflicts result)
    (next : α → Except Exc β) : Conflicts (result >>= next) := by
  obtain ⟨message, code, rfl⟩ := h
  exact ⟨message, code, rfl⟩

/-- A duplicate is reported as a conflict of identities, and nothing else is. -/
theorem requireDistinct_cases (what : String) (ids : List String) :
    requireDistinct what ids = .ok () ∨ Conflicts (requireDistinct what ids) := by
  unfold requireDistinct
  split
  · exact Or.inr ⟨_, _, rfl⟩
  · exact Or.inl rfl

/-- An attempt of an unknown job is reported as a conflict of identities, and nothing
else is. -/
theorem requireKnownJobs_cases (jobs : List Job) (attempts : List EvaluationAttempt) :
    attempts.forM (requireKnownJob jobs) = .ok () ∨
      Conflicts (attempts.forM (requireKnownJob jobs)) := by
  induction attempts with
  | nil => exact Or.inl rfl
  | cons attempt rest ih =>
      rw [List.forM]
      by_cases hknown : (jobById jobs attempt.jobId).isSome
      · rw [requireKnownJob, if_pos hknown]
        exact ih
      · rw [requireKnownJob, if_neg hknown]
        exact Or.inr ⟨_, _, rfl⟩

/-! ### Failures of the reducer -/

/-- The scan fails in a comparison only: a naive and an aware start cannot be ordered. -/
theorem latest_error {best : EvaluationAttempt} {rest : List EvaluationAttempt} {error : Exc}
    (h : latest best rest = .error error) : error = .typeError := by
  induction rest generalizing best with
  | nil => cases h
  | cons attempt rest ih =>
      rcases bind_eq_error.mp h with hlater | ⟨later, _, hrest⟩
      · unfold isLater at hlater
        split_ifs at hlater
        exact (Except.error.inj hlater).symm
      · cases later
        · exact ih hrest
        · exact ih hrest

/-- Reducing a repetition fails only where its attempts cannot be compared. -/
theorem reduceRepetition_error {attempts : List EvaluationAttempt} {error : Exc}
    (h : reduceRepetition attempts = .error error) : error = .typeError := by
  unfold reduceRepetition at h
  split at h
  next =>
    rcases bind_eq_error.mp h with hlatest | ⟨_, _, hresult⟩
    · exact latest_error hlatest
    · cases hresult
  next =>
    split at h
    next => cases h
    next =>
      rcases bind_eq_error.mp h with hlatest | ⟨best, _, hresult⟩
      · exact latest_error hlatest
      · split at hresult <;> cases hresult

/-- Nothing but start times that cannot be compared keeps a cell from being built. -/
theorem buildCell_error {inputs : MatrixInputs} {key : String × String × String} {error : Exc}
    (h : inputs.buildCell key = .error error) : error = .typeError := by
  rcases bind_eq_error.mp h with hresults | ⟨_, _, hcell⟩
  · obtain ⟨rep, _, hrep⟩ := exists_of_mapM_error hresults
    exact reduceRepetition_error hrep
  · cases hcell

/-! ### What building checks -/

/-- The identities are distinct and the jobs of all attempts are known. -/
structure MatrixInputs.Identified (inputs : MatrixInputs) : Prop where
  jobIds : (inputs.jobs.map Job.jobId).Nodup
  attemptIds : (inputs.attempts.map EvaluationAttempt.attemptId).Nodup
  known : ∀ attempt ∈ inputs.attempts, ∃ job ∈ inputs.jobs, job.jobId = attempt.jobId

section Build

variable {sha256 : List UInt8 → Digest} {inputs : MatrixInputs} {reducerVersion : String}
  {now : Datetime}

theorem exists_jobById_iff {jobs : List Job} {jobId : String} :
    (∃ job, jobById jobs jobId = some job) ↔ ∃ job ∈ jobs, job.jobId = jobId := by
  rw [← Option.isSome_iff_exists, jobById, List.find?_isSome]
  simp only [decide_eq_true_eq]

theorem validateMatrix_ok {matrix : AcceptanceMatrix} {manifest : AuditManifest}
    (h : matrix.runId = manifest.runId) : validateMatrix matrix manifest = .ok () := by
  rw [validateMatrix, if_neg (not_not.mpr h)]

/-- Building raises a conflict on inputs that are not identified, and otherwise
depends on the cells alone. -/
theorem buildMatrix_cases (sha256 : List UInt8 → Digest) (inputs : MatrixInputs)
    (reducerVersion : String) (now : Datetime) :
    (¬ inputs.Identified ∧ Conflicts (buildMatrix sha256 inputs reducerVersion now)) ∨
      (inputs.Identified ∧
        (∀ cells, (cellKeys inputs.jobs).mapM inputs.buildCell = .ok cells →
          ∃ matrix, buildMatrix sha256 inputs reducerVersion now = .ok matrix ∧
            matrix.cells = cells) ∧
        ∀ error, (cellKeys inputs.jobs).mapM inputs.buildCell = .error error →
          buildMatrix sha256 inputs reducerVersion now = .error error) := by
  have hknown := @forM_eq_ok _ _ (requireKnownJob inputs.jobs) inputs.attempts
  simp only [requireKnownJob_eq_ok, exists_jobById_iff] at hknown
  -- The three checks come in this order, and each of them raises the same error.
  unfold buildMatrix
  rcases requireDistinct_cases "job_id" (inputs.jobs.map Job.jobId) with hjobs | hjobs
  · rcases requireDistinct_cases "attempt_id" (inputs.attempts.map EvaluationAttempt.attemptId) with
      hattempts | hattempts
    · rcases requireKnownJobs_cases inputs.jobs inputs.attempts with hjobOf | hjobOf
      · refine Or.inr ⟨⟨requireDistinct_eq_ok.mp hjobs, requireDistinct_eq_ok.mp hattempts,
          hknown.mp hjobOf⟩, ?_, ?_⟩
        · intro cells hcells
          simp only [hjobs, hattempts, hjobOf, hcells, bind, Except.bind]
          rw [validateMatrix_ok rfl]
          exact ⟨_, rfl, rfl⟩
        · intro error herror
          rw [hjobs, hattempts, hjobOf, herror]
          rfl
      · refine Or.inl ⟨fun h => ?_, ?_⟩
        · obtain ⟨message, code, hraises⟩ := hjobOf
          rw [hknown.mpr h.known] at hraises
          cases hraises
        · rw [hjobs, hattempts]
          exact hjobOf.bind _
    · refine Or.inl ⟨fun h => ?_, ?_⟩
      · obtain ⟨message, code, hraises⟩ := hattempts
        rw [requireDistinct_eq_ok.mpr h.attemptIds] at hraises
        cases hraises
      · rw [hjobs]
        exact hattempts.bind _
  · refine Or.inl ⟨fun h => ?_, hjobs.bind _⟩
    obtain ⟨message, code, hraises⟩ := hjobs
    rw [requireDistinct_eq_ok.mpr h.jobIds] at hraises
    cases hraises

/-- The identity checks come first and look at sets of ids, so a conflict does not depend on any
order. -/
theorem conflicts_iff :
    Conflicts (buildMatrix sha256 inputs reducerVersion now) ↔ ¬ inputs.Identified := by
  rcases buildMatrix_cases sha256 inputs reducerVersion now with ⟨hnot, hconflicts⟩ |
    ⟨hidentified, hcells, herror⟩
  · exact ⟨fun _ => hnot, fun _ => hconflicts⟩
  · refine ⟨?_, fun hnot => absurd hidentified hnot⟩
    rintro ⟨message, code, hraises⟩
    cases hmap : (cellKeys inputs.jobs).mapM inputs.buildCell with
    | ok cells =>
        obtain ⟨matrix, hmatrix, _⟩ := hcells cells hmap
        rw [hmatrix] at hraises
        cases hraises
    | error error =>
        obtain ⟨key, _, hkey⟩ := exists_of_mapM_error hmap
        rw [herror error hmap, buildCell_error hkey] at hraises
        cases hraises

/-- Once the identities are in order, the cells decide whether there is a matrix. -/
theorem buildMatrix_returns {cells : List AcceptanceCell} (hidentified : inputs.Identified)
    (hcells : (cellKeys inputs.jobs).mapM inputs.buildCell = .ok cells) :
    ∃ matrix, buildMatrix sha256 inputs reducerVersion now = .ok matrix ∧
      matrix.cells = cells := by
  rcases buildMatrix_cases sha256 inputs reducerVersion now with ⟨hnot, _⟩ | ⟨_, hreturns, _⟩
  · exact absurd hidentified hnot
  · exact hreturns cells hcells

theorem buildMatrix_fails {error : Exc} (hidentified : inputs.Identified)
    (herror : (cellKeys inputs.jobs).mapM inputs.buildCell = .error error) :
    buildMatrix sha256 inputs reducerVersion now = .error error := by
  rcases buildMatrix_cases sha256 inputs reducerVersion now with ⟨hnot, _⟩ | ⟨_, _, hfails⟩
  · exact absurd hidentified hnot
  · exact hfails error herror

/-- The cells of a matrix are built one by one, in the order of the sorted keys. -/
theorem buildMatrix_cells {matrix : AcceptanceMatrix}
    (h : buildMatrix sha256 inputs reducerVersion now = .ok matrix) :
    (cellKeys inputs.jobs).mapM inputs.buildCell = .ok matrix.cells := by
  unfold buildMatrix at h
  obtain ⟨_, h⟩ := bind_eq_ok_unit.mp h
  obtain ⟨_, h⟩ := bind_eq_ok_unit.mp h
  obtain ⟨_, h⟩ := bind_eq_ok_unit.mp h
  obtain ⟨cells, hcells, h⟩ := bind_eq_ok.mp h
  obtain ⟨_, hmatrix⟩ := bind_eq_ok_unit.mp h
  obtain rfl := Except.ok.inj hmatrix
  exact hcells

end Build

/-! ## Reordered attempts -/

theorem Comparable.symm {a b : EvaluationAttempt} (h : Comparable a b) : Comparable b a :=
  fun hfence => (h hfence.symm).symm

section Reorder

variable {attempts attempts' : List EvaluationAttempt}

theorem candidates_perm (h : attempts'.Perm attempts) :
    (candidates attempts').Perm (candidates attempts) := by
  unfold candidates
  simp only [h.mem_iff]
  split_ifs
  · exact h.filter _
  · exact h

theorem preferred_perm (h : attempts'.Perm attempts) (a : EvaluationAttempt) :
    Preferred attempts' a ↔ Preferred attempts a := by
  constructor
  · intro ha
    exact ⟨h.mem_iff.mp ha.mem, fun b hb => ha.outranks b (h.mem_iff.mpr hb), ha.usable⟩
  · intro ha
    exact ⟨h.mem_iff.mpr ha.mem, fun b hb => ha.outranks b (h.mem_iff.mp hb), ha.usable⟩

/-- The same selection, and the same exclusions in another order. -/
structure EqualReductions (result result' : RepetitionResult) : Prop where
  selected : result'.selected = result.selected
  excluded : result'.excluded.Perm result.excluded

/-- Attempts that can all be compared are reduced alike in every order. -/
theorem reduceRepetition_perm {result : RepetitionResult} (h : attempts'.Perm attempts)
    (hids : (attempts.map EvaluationAttempt.attemptId).Nodup)
    (hcomparable : (candidates attempts).Pairwise Comparable)
    (hresult : reduceRepetition attempts = .ok result) :
    ∃ result', reduceRepetition attempts' = .ok result' ∧ EqualReductions result result' := by
  have hids' := (h.map EvaluationAttempt.attemptId).nodup_iff.mpr hids
  have hscannable := scannable_of_comparable
    (((candidates_perm h).pairwise_iff Comparable.symm).mpr hcomparable)
  obtain ⟨result', hresult'⟩ := (reduceRepetition_ok_iff hids').mpr hscannable
  have hspec := reduceRepetition_spec hresult hids
  have hspec' := reduceRepetition_spec hresult' hids'
  have hselected : result'.selected = result.selected := by
    apply Option.ext
    intro a
    rw [hspec.selected, hspec'.selected, preferred_perm h]
  refine ⟨result', hresult', hselected, ?_⟩
  rw [reduceRepetition_excluded hresult, reduceRepetition_excluded hresult', hselected]
  exact (h.filter _).map _

/-- A cell shows what its repetitions are reduced to. -/
theorem assembleCell_equal (header : CellHeader) (planned : Int)
    {unmapped unmapped' : List EvaluationAttempt} (hunmapped : unmapped'.Perm unmapped)
    {results results' : List RepetitionResult}
    (hresults : List.Forall₂ EqualReductions results results') :
    EqualCells (assembleCell header planned unmapped results)
      (assembleCell header planned unmapped' results') := by
  have hselected : results'.map RepetitionResult.selected =
      results.map RepetitionResult.selected :=
    (map_eq_of_forall₂ hresults fun _ _ _ h => h.selected.symm).symm
  have houtcomes :
      results'.map RepetitionResult.outcome = results.map RepetitionResult.outcome := by
    have hmap := congrArg (List.map fun selected : Option EvaluationAttempt =>
      orPending (selected.bind EvaluationAttempt.outcome)) hselected
    rwa [List.map_map, List.map_map] at hmap
  have hcodes : results'.filterMap RepetitionResult.diagnosticCode =
      results.filterMap RepetitionResult.diagnosticCode := by
    have hmap := congrArg (List.filterMap fun selected : Option EvaluationAttempt =>
      (selected.bind EvaluationAttempt.errorCode).filter fun code => code ≠ "") hselected
    rwa [List.filterMap_map, List.filterMap_map] at hmap
  have hids : results'.filterMap (fun result => result.selected.map EvaluationAttempt.attemptId) =
      results.filterMap fun result => result.selected.map EvaluationAttempt.attemptId := by
    have hmap := congrArg (List.filterMap fun selected : Option EvaluationAttempt =>
      selected.map EvaluationAttempt.attemptId) hselected
    rwa [List.filterMap_map, List.filterMap_map] at hmap
  refine ⟨?_, ?_⟩
  · simp only [assembleCell, houtcomes, hcodes, hids]
  · exact (hunmapped.map _).append
      (flatMap_perm_of_forall₂ (hresults.flip.imp fun _ _ h => h.excluded))

/-- Where all starts can be compared, the selection of a repetition does not depend on the order
in which its attempts are scanned. -/
theorem aggregateCell_perm {header : CellHeader} {planned : Int}
    {jobRepetition : String → Option Int} {cell : AcceptanceCell} (h : attempts'.Perm attempts)
    (hids : (attempts.map EvaluationAttempt.attemptId).Nodup)
    (hcomparable : ∀ rep : Nat, (rep : Int) < planned →
      (candidates (attemptsAt planned jobRepetition attempts rep)).Pairwise Comparable)
    (hcell : aggregateCell header planned attempts jobRepetition = .ok cell) :
    ∃ cell', aggregateCell header planned attempts' jobRepetition = .ok cell' ∧
      EqualCells cell cell' := by
  obtain ⟨results, hresults, heq⟩ := bind_eq_ok.mp hcell
  obtain rfl := Except.ok.inj heq
  obtain ⟨results', hresults', hequal⟩ := forall₂_extend (mapM_eq_ok.mp hresults)
    (S := fun rep result' =>
      reduceRepetition (attemptsAt planned jobRepetition attempts' rep) = .ok result')
    (T := EqualReductions) (by
      intro rep hrep result hresult
      rw [List.mem_range] at hrep
      exact reduceRepetition_perm (h.filter _) (attemptsAt_ids_nodup hids rep)
        (hcomparable rep (by omega)) hresult)
  exact ⟨_, bind_eq_ok.mpr ⟨results', mapM_eq_ok.mpr hresults', rfl⟩,
    assembleCell_equal header planned (h.filter _) hequal⟩

end Reorder

/-! ## Reordered matrices -/

section Matrices

variable {sha256 : List UInt8 → Digest} {inputs : MatrixInputs} {reducerVersion : String}
  {now now' : Datetime} {jobs : List Job} {attempts : List EvaluationAttempt}
  {matrix : AcceptanceMatrix}

/-- Whether identities conflict is a matter of what is listed, not of where. -/
theorem identified_listing (hjobs : jobs.Perm inputs.jobs)
    (hattempts : attempts.Perm inputs.attempts) :
    (inputs.listing jobs attempts).Identified ↔ inputs.Identified := by
  have hjobIds := (hjobs.map Job.jobId).nodup_iff
  have hattemptIds := (hattempts.map EvaluationAttempt.attemptId).nodup_iff
  constructor
  · intro h
    refine ⟨hjobIds.mp h.jobIds, hattemptIds.mp h.attemptIds, ?_⟩
    intro attempt hattempt
    obtain ⟨job, hjob, hid⟩ := h.known attempt (hattempts.mem_iff.mpr hattempt)
    exact ⟨job, hjobs.mem_iff.mp hjob, hid⟩
  · intro h
    refine ⟨hjobIds.mpr h.jobIds, hattemptIds.mpr h.attemptIds, ?_⟩
    intro attempt hattempt
    obtain ⟨job, hjob, hid⟩ := h.known attempt (hattempts.mem_iff.mp hattempt)
    exact ⟨job, hjobs.mem_iff.mpr hjob, hid⟩

theorem jobById_perm {jobs' : List Job} (h : jobs'.Perm jobs)
    (hids : (jobs.map Job.jobId).Nodup) : jobById jobs' = jobById jobs := by
  funext jobId
  apply Option.ext
  intro job
  rw [jobById_eq_some_iff hids, jobById_eq_some_iff ((h.map Job.jobId).nodup_iff.mpr hids),
    h.mem_iff]

theorem cellKeyLe_iff (a b : String × String × String) :
    CellKeyLe a b ↔ toLex (a.1, toLex a.2) ≤ toLex (b.1, toLex b.2) := by
  simp only [CellKeyLe, Prod.Lex.toLex_le_toLex]

theorem cellKeys_perm {jobs' : List Job} (h : jobs'.Perm jobs) :
    cellKeys jobs' = cellKeys jobs := by
  refine sorted_eq_of_perm cellKeyLe_iff ?_ (h.map Job.cellKey).dedup
  intro a _ b _ heq
  obtain ⟨hfst, hsnd⟩ := Prod.mk.inj (toLex_inj.mp heq)
  exact Prod.ext hfst (toLex_inj.mp hsnd)

/-- The records are sorted by ids, which are distinct. -/
theorem attemptRecords_perm {attempts' : List EvaluationAttempt} (h : attempts'.Perm attempts)
    (hids : (attempts.map EvaluationAttempt.attemptId).Nodup) :
    attemptRecords attempts' = attemptRecords attempts := by
  rw [attemptRecords, attemptRecords, sorted_eq_of_perm (fun _ _ => Iff.rfl) ?_ h]
  intro a ha b hb heq
  exact List.inj_on_of_nodup_map hids (h.mem_iff.mp ha) (h.mem_iff.mp hb) heq

/-- Attempts that compete for one repetition of one cell can all be compared. -/
def MatrixInputs.StartsComparable (inputs : MatrixInputs) : Prop :=
  ∀ key ∈ cellKeys inputs.jobs, ∀ rep : Nat, (rep : Int) < inputs.manifest.maxRepetitions →
    (candidates (inputs.attemptsOf key rep)).Pairwise Comparable

/-- The attempts of a cell do not depend on the order of the jobs. -/
theorem cellAttempts_listing (hjobs : jobs.Perm inputs.jobs)
    (hids : (inputs.jobs.map Job.jobId).Nodup) (key : String × String × String) :
    cellAttempts jobs attempts key = cellAttempts inputs.jobs attempts key := by
  rw [cellAttempts, cellAttempts, jobById_perm hjobs hids]

/-- A cell depends on the jobs through their mapping only, and on the attempts through their
order. -/
theorem buildCell_listing (hjobs : jobs.Perm inputs.jobs)
    (hids : (inputs.jobs.map Job.jobId).Nodup) (key : String × String × String) :
    (inputs.listing jobs attempts).buildCell key =
      aggregateCell (inputs.header key) inputs.manifest.maxRepetitions
        (cellAttempts inputs.jobs attempts key) (jobRepetitionMap inputs.jobs) := by
  have hmap : jobRepetitionMap jobs = jobRepetitionMap inputs.jobs := by
    funext jobId
    rw [jobRepetitionMap, jobRepetitionMap, jobById_perm hjobs hids]
  rw [← hmap, ← cellAttempts_listing hjobs hids]
  rfl

theorem cellRecord_equal {cell cell' : AcceptanceCell} (h : EqualCells cell cell') :
    cellRecord cell' = cellRecord cell := by
  rw [h.eq]
  rfl

/-- Completeness asks for terminal jobs and counts selected attempts. -/
theorem isComplete_listing {cells cells' : List AcceptanceCell} (hjobs : jobs.Perm inputs.jobs)
    (h : List.Forall₂ EqualCells cells cells') :
    (inputs.listing jobs attempts).isComplete cells' = inputs.isComplete cells := by
  have hselected : cells'.map AcceptanceCell.selectedAttemptIds =
      cells.map AcceptanceCell.selectedAttemptIds :=
    map_eq_of_forall₂ h.flip fun _ _ _ hequal => by rw [hequal.eq]
  have hall := congrArg (List.all · fun ids : List String =>
    decide ((ids.length : Int) = inputs.manifest.maxRepetitions)) hselected
  rw [List.all_map, List.all_map] at hall
  rw [MatrixInputs.isComplete, MatrixInputs.isComplete]
  exact congrArg₂ and hjobs.all_eq hall

/-- Built once, a matrix of attempts that can all be compared is built from every
order of them. -/
theorem buildMatrix_listing (hjobs : jobs.Perm inputs.jobs)
    (hattempts : attempts.Perm inputs.attempts) (hcomparable : inputs.StartsComparable)
    (hbuild : buildMatrix sha256 inputs reducerVersion now = .ok matrix) :
    ∃ matrix', buildMatrix sha256 (inputs.listing jobs attempts) reducerVersion now' =
      .ok matrix' ∧ EqualMatrices matrix matrix' := by
  have hbuilt := buildMatrix_ok hbuild
  -- Each cell is built again from a permutation of its attempts.
  obtain ⟨cells', hcells', hequal⟩ := forall₂_extend (mapM_eq_ok.mp (buildMatrix_cells hbuild))
    (S := fun key cell => (inputs.listing jobs attempts).buildCell key = .ok cell)
    (T := EqualCells) (by
      intro key hkey cell hcell
      simp only [buildCell_listing hjobs hbuilt.jobIds]
      exact aggregateCell_perm (hattempts.filter _)
        (hbuilt.attemptIds.sublist (List.filter_sublist.map _)) (hcomparable key hkey) hcell)
  rw [← cellKeys_perm hjobs] at hcells'
  have hidentified : (inputs.listing jobs attempts).Identified := by
    refine (identified_listing hjobs hattempts).mpr ⟨hbuilt.jobIds, hbuilt.attemptIds, ?_⟩
    exact fun attempt hattempt => exists_jobById_iff.mp (hbuilt.known attempt hattempt)
  obtain ⟨matrix', hmatrix', hcells⟩ : ∃ matrix', buildMatrix sha256
      (inputs.listing jobs attempts) reducerVersion now' = .ok matrix' ∧ matrix'.cells = cells' :=
    buildMatrix_returns hidentified (mapM_eq_ok.mpr hcells')
  have hbuilt' := buildMatrix_ok hmatrix'
  have hdigest : matrix'.sourceAttemptsDigest = matrix.sourceAttemptsDigest := by
    rw [hbuilt'.sourceAttemptsDigest, hbuilt.sourceAttemptsDigest, MatrixInputs.listing,
      attemptRecords_perm hattempts hbuilt.attemptIds]
  -- The id hashes the records of the cells, which do not see the order of the attempts.
  have hrecords : cells'.map cellRecord = matrix.cells.map cellRecord :=
    map_eq_of_forall₂ hequal.flip fun _ _ _ h => cellRecord_equal h
  refine ⟨matrix', hmatrix', ?_, hdigest, ?_, hcells ▸ hequal⟩
  · rw [hbuilt'.matrixId, hbuilt.matrixId, hdigest, matrixIdPayload, matrixIdPayload, hcells,
      hrecords]
    rfl
  · rw [hbuilt'.complete, hbuilt.complete, hcells, isComplete_listing hjobs hequal]

/-! ## Orders that fail -/

/-- Jobs and attempts can be listed in any order. -/
def OrderIndependent (sha256 : List UInt8 → Digest) (inputs : MatrixInputs)
    (reducerVersion : String) : Prop :=
  ∀ jobs attempts, jobs.Perm inputs.jobs → attempts.Perm inputs.attempts →
    ∀ now now' matrix, buildMatrix sha256 inputs reducerVersion now = .ok matrix →
      ∃ matrix', buildMatrix sha256 (inputs.listing jobs attempts) reducerVersion now' =
        .ok matrix' ∧ EqualMatrices matrix matrix'

/-- Two candidates listed first are the first candidates. -/
theorem candidates_cons_cons {a b : EvaluationAttempt} {rest others : List EvaluationAttempt}
    (hperm : (a :: b :: rest).Perm others) (ha : a ∈ candidates others)
    (hb : b ∈ candidates others) : ∃ tail, candidates (a :: b :: rest) = a :: b :: tail := by
  by_cases hauth : ∃ c ∈ others, c.disposition = .authoritative
  · have hauth' : ∃ c ∈ a :: b :: rest, c.disposition = .authoritative := by
      simpa only [hperm.mem_iff] using hauth
    rw [mem_candidates_of_authoritative hauth] at ha hb
    refine ⟨rest.filter fun attempt => attempt.disposition = .authoritative, ?_⟩
    rw [candidates, if_pos hauth', List.filter_cons_of_pos (by simpa using ha.2),
      List.filter_cons_of_pos (by simpa using hb.2)]
  · have hauth' : ¬ ∃ c ∈ a :: b :: rest, c.disposition = .authoritative := by
      simpa only [hperm.mem_iff] using hauth
    exact ⟨rest, by rw [candidates, if_neg hauth']⟩

theorem attemptsOf_cons {a : EvaluationAttempt} {rest : List EvaluationAttempt}
    {key : String × String × String} {rep : Nat} (ha : a ∈ inputs.attemptsOf key rep) :
    (inputs.listing inputs.jobs (a :: rest)).attemptsOf key rep =
      a :: (inputs.listing inputs.jobs rest).attemptsOf key rep := by
  obtain ⟨hmem, hrep⟩ := List.mem_filter.mp ha
  have hcell : cellAttempts inputs.jobs (a :: rest) key = a :: cellAttempts inputs.jobs rest key :=
    List.filter_cons_of_pos (List.mem_filter.mp hmem).2
  change attemptsAt _ _ (cellAttempts inputs.jobs (a :: rest) key) rep = _
  rw [hcell]
  exact List.filter_cons_of_pos hrep

/-- A matrix is built only if every repetition of every cell could be scanned. -/
theorem scannable_of_build {key : String × String × String} (hkey : key ∈ cellKeys inputs.jobs)
    {rep : Nat} (hrep : (rep : Int) < inputs.manifest.maxRepetitions)
    (hbuild : buildMatrix sha256 inputs reducerVersion now = .ok matrix) :
    Scannable (candidates (inputs.attemptsOf key rep)) := by
  have hbuilt := buildMatrix_ok hbuild
  obtain ⟨cell, hcell⟩ := exists_mapM_ok.mp ⟨_, buildMatrix_cells hbuild⟩ key hkey
  obtain ⟨results, hresults, _⟩ := bind_eq_ok.mp hcell
  have hids : ((inputs.attemptsOf key rep).map EvaluationAttempt.attemptId).Nodup :=
    attemptsAt_ids_nodup (hbuilt.attemptIds.sublist (List.filter_sublist.map _)) rep
  rw [← reduceRepetition_ok_iff hids]
  exact exists_mapM_ok.mp ⟨results, hresults⟩ rep (List.mem_range.mpr (by omega))

/-- Two attempts that cannot be compared can be listed first and next to each other; the scan
then raises. -/
theorem OrderIndependent.startsComparable
    (hbuild : buildMatrix sha256 inputs reducerVersion now = .ok matrix)
    (h : OrderIndependent sha256 inputs reducerVersion) : inputs.StartsComparable := by
  intro key hkey rep hrep
  rw [List.pairwise_iff_forall_sublist]
  intro a b hab
  have hinputs : (inputs.attemptsOf key rep).Sublist inputs.attempts :=
    List.filter_sublist.trans List.filter_sublist
  have ha : a ∈ candidates (inputs.attemptsOf key rep) := hab.subset (by simp)
  have hb : b ∈ candidates (inputs.attemptsOf key rep) := hab.subset (by simp)
  -- list the two attempts first
  obtain ⟨rest, hrest⟩ :=
    (hab.trans ((candidates_sublist _).trans hinputs)).exists_perm_append
  obtain ⟨matrix', hmatrix', _⟩ := h inputs.jobs (a :: b :: rest) (.refl _) hrest.symm now now
    matrix hbuild
  have hscannable : Scannable (candidates
      ((inputs.listing inputs.jobs (a :: b :: rest)).attemptsOf key rep)) := by
    apply scannable_of_build _ _ hmatrix'
    · exact hkey
    · exact hrep
  have hperm : ((inputs.listing inputs.jobs (a :: b :: rest)).attemptsOf key rep).Perm
      (inputs.attemptsOf key rep) := (hrest.symm.filter _).filter _
  rw [attemptsOf_cons ((candidates_sublist _).subset ha),
    attemptsOf_cons ((candidates_sublist _).subset hb)] at hscannable hperm
  obtain ⟨tail, htail⟩ := candidates_cons_cons hperm ha hb
  rw [htail] at hscannable
  refine hscannable [a] b tail a rfl ⟨List.mem_singleton_self a, ?_⟩
  intro other hother hne
  exact absurd (List.mem_singleton.mp hother) hne

/-- Conflicts do not depend on the order of jobs and attempts, and where a matrix
is returned, it is returned for every order exactly if all attempts that compete
with each other can be compared. -/
theorem orderIndependent_iff (sha256 : List UInt8 → Digest) (inputs : MatrixInputs)
    (reducerVersion : String) :
    (∀ jobs attempts, jobs.Perm inputs.jobs → attempts.Perm inputs.attempts → ∀ now now',
      (Conflicts (buildMatrix sha256 (inputs.listing jobs attempts) reducerVersion now') ↔
        Conflicts (buildMatrix sha256 inputs reducerVersion now))) ∧
    ∀ now matrix, buildMatrix sha256 inputs reducerVersion now = .ok matrix →
      (OrderIndependent sha256 inputs reducerVersion ↔ inputs.StartsComparable) := by
  refine ⟨?_, ?_⟩
  · intro jobs attempts hjobs hattempts now now'
    rw [conflicts_iff, conflicts_iff, identified_listing hjobs hattempts]
  · intro now matrix hbuild
    refine ⟨fun h => h.startsComparable hbuild, ?_⟩
    intro hcomparable jobs attempts hjobs hattempts now now' matrix hmatrix
    exact buildMatrix_listing hjobs hattempts hcomparable hmatrix

end Matrices

/-! ## Three attempts of one job -/

/-- Only the last of them does not know its offset; the second has another fence. -/
def straggling : List EvaluationAttempt :=
  [acceptingAttempt "first" baselineDigest.text 1, acceptingAttempt "second" baselineDigest.text 2,
    { acceptingAttempt "third" baselineDigest.text 1 with startedAt := naiveStart }]

def stragglingInputs : MatrixInputs :=
  smallInputs.listing [finishedJob baselineDigest.text "verifier" "second"] straggling

/-- The same attempts, the two of one fence next to each other. -/
def stragglingLast : List EvaluationAttempt :=
  [acceptingAttempt "first" baselineDigest.text 1,
    { acceptingAttempt "third" baselineDigest.text 1 with startedAt := naiveStart },
    acceptingAttempt "second" baselineDigest.text 2]

/-- One order of them makes a matrix and the other fails: only there are the two attempts of one
fence compared. -/
theorem order_matters :
    stragglingLast.Perm stragglingInputs.attempts ∧
      (∃ matrix, buildMatrix matrixSha256 stragglingInputs defaultReducerVersion
        smallManifest.timestamp = .ok matrix) ∧
      buildMatrix matrixSha256 (stragglingInputs.listing stragglingInputs.jobs stragglingLast)
        defaultReducerVersion smallManifest.timestamp = .error .typeError ∧
      ¬ OrderIndependent matrixSha256 stragglingInputs defaultReducerVersion := by
  have hperm : stragglingLast.Perm stragglingInputs.attempts :=
    .cons _ (.swap _ _ _)
  have hidentified : stragglingInputs.Identified := ⟨by decide, by decide, by decide⟩
  have hreturns : ∃ matrix, buildMatrix matrixSha256 stragglingInputs defaultReducerVersion
      smallManifest.timestamp = .ok matrix := by
    have hmap : ∃ cells, (cellKeys stragglingInputs.jobs).mapM stragglingInputs.buildCell =
        .ok cells := ⟨_, rfl⟩
    obtain ⟨cells, hmap⟩ := hmap
    obtain ⟨matrix, hmatrix, _⟩ := buildMatrix_returns hidentified hmap
    exact ⟨matrix, hmatrix⟩
  have hfails : buildMatrix matrixSha256
      (stragglingInputs.listing stragglingInputs.jobs stragglingLast) defaultReducerVersion
        smallManifest.timestamp = .error .typeError :=
    buildMatrix_fails ((identified_listing (.refl _) hperm).mpr hidentified) rfl
  refine ⟨hperm, hreturns, hfails, ?_⟩
  intro h
  obtain ⟨matrix, hmatrix⟩ := hreturns
  obtain ⟨matrix', hmatrix', _⟩ := h _ _ (.refl _) hperm _ smallManifest.timestamp matrix hmatrix
  rw [hfails] at hmatrix'
  cases hmatrix'

/-- Every repetition of the small run has one attempt. -/
theorem smallInputs_orderIndependent :
    OrderIndependent matrixSha256 smallInputs defaultReducerVersion := by
  refine ((orderIndependent_iff matrixSha256 smallInputs defaultReducerVersion).2 _ _
    buildMatrix_small).mpr ?_
  have hsame : ∀ a ∈ smallAttempts, ∀ b ∈ smallAttempts, Comparable a b := by
    unfold Comparable
    decide
  intro key _ rep _
  exact (List.pairwise_of_forall_mem_list hsame).sublist ((candidates_sublist _).trans
    (List.filter_sublist.trans List.filter_sublist))

end VerifierCI
