import VerifierCI.Execution.MatrixCells

/-! # What a matrix id binds

The id of a matrix is the digest of a few fields of its attempts and cells.
Everything else a cell shows comes from inputs the id does not see.
-/

namespace VerifierCI

open Python

/-! ## The preferred attempts in order -/

open Classical in
/-- The attempt a repetition is represented by, if it has one. -/
noncomputable def preferred? (attempts : List EvaluationAttempt) : Option EvaluationAttempt :=
  if h : ∃ a, Preferred attempts a then some h.choose else none

/-- The executable search for a preferred attempt finds the one that is meant. -/
theorem preferred?_eq_some_iff {attempts : List EvaluationAttempt} {a : EvaluationAttempt} :
    preferred? attempts = some a ↔ Preferred attempts a := by
  unfold preferred?
  split_ifs with h
  · rw [Option.some.injEq]
    constructor
    · rintro rfl
      exact h.choose_spec
    · exact h.choose_spec.eq
  · simp only [false_iff]
    exact fun ha => h ⟨a, ha⟩

theorem ReducesTo.selected_eq {attempts : List EvaluationAttempt} {result : RepetitionResult}
    (h : ReducesTo attempts result) : result.selected = preferred? attempts := by
  apply Option.ext
  intro a
  rw [preferred?_eq_some_iff]
  exact h.selected a

namespace MatrixInputs

variable (inputs : MatrixInputs)

/-- The preferred attempts of a cell, by repetition. -/
noncomputable def preferred (key : String × String × String) : List (Option EvaluationAttempt) :=
  (List.range inputs.manifest.maxRepetitions.toNat).map fun rep =>
    preferred? (inputs.attemptsOf key rep)

noncomputable def outcomes (key : String × String × String) : List RepetitionOutcome :=
  (inputs.preferred key).map fun a => orPending (a.bind EvaluationAttempt.outcome)

/-- The error codes of the preferred attempts, followed by the code the verdict
itself adds. -/
noncomputable def codes (key : String × String × String) : List String :=
  (inputs.preferred key).filterMap (fun a =>
      (a.bind EvaluationAttempt.errorCode).filter fun code => code ≠ "") ++
    (cellVerdict inputs.manifest.maxRepetitions (inputs.outcomes key) []).2.2

/-- Every job is terminal and every repetition of every cell has a preferred attempt. -/
def Finished : Prop :=
  (∀ job ∈ inputs.jobs, job.state.isTerminal = true) ∧
    ∀ key ∈ cellKeys inputs.jobs, 0 ≤ inputs.manifest.maxRepetitions ∧
      ∀ rep : Nat, (rep : Int) < inputs.manifest.maxRepetitions →
        ∃ a, Preferred (inputs.attemptsOf key rep) a

end MatrixInputs

/-- What the reducer selects is read off the preferred attempts, repetition by repetition. -/
theorem AggregatesTo.selected_eq {inputs : MatrixInputs} {key : String × String × String}
    {results : List RepetitionResult}
    (h : AggregatesTo inputs.manifest.maxRepetitions (inputs.attemptsOf key) results) :
    results.map RepetitionResult.selected = inputs.preferred key := by
  apply List.ext_getElem?
  intro rep
  rw [MatrixInputs.preferred, List.getElem?_map, List.getElem?_map]
  cases hresult : results[rep]? with
  | none =>
      have hle := List.getElem?_eq_none_iff.mp hresult
      rw [h.length] at hle
      rw [List.getElem?_eq_none (by simpa using hle)]
      rfl
  | some result =>
      have hlt := h.lt_of_getElem? hresult
      rw [List.getElem?_range (by omega), Option.map_some, Option.map_some,
        (h.reduces rep result hresult).selected_eq]

/-! ## Verdicts and codes -/

/-- Adding a code where it is absent and listing it again come to the same. -/
theorem dedupeCodes_appendIfAbsent (codes : List String) (code : String) :
    dedupeCodes (appendIfAbsent codes code) = dedupeCodes (codes ++ [code]) := by
  rw [appendIfAbsent]
  split_ifs with hmem
  · rw [dedupeCodes_append, appendIfAbsent, if_pos (mem_dedupeCodes.mpr hmem)]
  · rfl

/-- Outcome and validity do not depend on the codes, and the codes are only
extended. -/
theorem cellVerdict_codes (planned : Int) (outcomes : List RepetitionOutcome)
    (codes : List String) :
    (cellVerdict planned outcomes codes).1 = (cellVerdict planned outcomes []).1 ∧
      (cellVerdict planned outcomes codes).2.1 = (cellVerdict planned outcomes []).2.1 ∧
        dedupeCodes (cellVerdict planned outcomes codes).2.2 =
          dedupeCodes (codes ++ (cellVerdict planned outcomes []).2.2) := by
  unfold cellVerdict
  simp only
  split_ifs
  all_goals
    refine ⟨rfl, rfl, ?_⟩
    first
      | rw [dedupeCodes_appendIfAbsent]; rfl
      | rw [List.append_nil]

/-! ## Contents and evidence -/

/-- Two cells show the same, up to the order of the attempt ids. -/
structure SameCell (a b : AcceptanceCell) : Prop where
  taskKey : a.taskKey = b.taskKey
  repositoryId : a.repositoryId = b.repositoryId
  caseId : a.caseId = b.caseId
  verifierKey : a.verifierKey = b.verifierKey
  adjudicationId : a.adjudicationId = b.adjudicationId
  label : a.label = b.label
  role : a.role = b.role
  outcome : a.outcome = b.outcome
  evaluationValidity : a.evaluationValidity = b.evaluationValidity
  plannedRepetitions : a.plannedRepetitions = b.plannedRepetitions
  selected : ∀ id, id ∈ a.selectedAttemptIds ↔ id ∈ b.selectedAttemptIds
  excluded : ∀ id, id ∈ a.excludedAttemptIds ↔ id ∈ b.excludedAttemptIds
  repetitionOutcomes : a.repetitionOutcomes = b.repetitionOutcomes
  diagnosticCodes : a.diagnosticCodes = b.diagnosticCodes

structure SameContent (a b : AcceptanceMatrix) : Prop where
  cells : List.Forall₂ SameCell a.cells b.cells
  complete : a.complete = b.complete

/-- The inputs agree on what one cell shows and the matrix id leaves out. -/
structure SameCellEvidence (inputs inputs' : MatrixInputs) (key : String × String × String) :
    Prop where
  header : inputs.header key = inputs'.header key
  planned : inputs.manifest.maxRepetitions = inputs'.manifest.maxRepetitions
  attempts : ∀ id,
    (∃ a ∈ cellAttempts inputs.jobs inputs.attempts key, a.attemptId = id) ↔
      ∃ a ∈ cellAttempts inputs'.jobs inputs'.attempts key, a.attemptId = id
  preferred : ∀ id, (∃ a, some a ∈ inputs.preferred key ∧ a.attemptId = id) ↔
    ∃ a, some a ∈ inputs'.preferred key ∧ a.attemptId = id
  outcomes : inputs.outcomes key = inputs'.outcomes key
  codes : dedupeCodes (inputs.codes key) = dedupeCodes (inputs'.codes key)

structure SameEvidence (inputs inputs' : MatrixInputs) : Prop where
  cells : ∀ key ∈ cellKeys inputs.jobs, SameCellEvidence inputs inputs' key
  finished : inputs.Finished ↔ inputs'.Finished

namespace CellBuilt

variable {inputs inputs' : MatrixInputs} {key : String × String × String}
  {cell cell' : AcceptanceCell}

/-- A cell selects the ids of the preferred attempts of its repetitions. -/
theorem selected_iff (h : CellBuilt inputs key cell) {id : String} :
    id ∈ cell.selectedAttemptIds ↔ ∃ a, some a ∈ inputs.preferred key ∧ a.attemptId = id := by
  rw [h.mem_selected]
  simp only [MatrixInputs.preferred, List.mem_map, List.mem_range, preferred?_eq_some_iff]
  constructor
  · rintro ⟨rep, hrep, a, ha, rfl⟩
    exact ⟨a, ⟨rep, by omega, ha⟩, rfl⟩
  · rintro ⟨a, ⟨rep, hrep, ha⟩, rfl⟩
    exact ⟨rep, by omega, a, ha, rfl⟩

/-- The excluded attempts are those of the cell that are not selected. -/
theorem excluded_iff (h : CellBuilt inputs key cell)
    (hids : (inputs.attempts.map EvaluationAttempt.attemptId).Nodup) {id : String} :
    id ∈ cell.excludedAttemptIds ↔
      (∃ a ∈ cellAttempts inputs.jobs inputs.attempts key, a.attemptId = id) ∧
        id ∉ cell.selectedAttemptIds := by
  rw [h.mem_selected]
  obtain ⟨results, hresults, rfl⟩ := h
  simp only [assembleCell, List.mem_append, List.mem_map, List.mem_flatMap]
  constructor
  -- Excluded are the attempts of no repetition and those a repetition passed over.
  · rintro (⟨a, ha, rfl⟩ | ⟨result, hmem, hexcluded⟩)
    · obtain ⟨haMem, hnone⟩ := List.mem_filter.mp ha
      refine ⟨⟨a, haMem, rfl⟩, ?_⟩
      rintro ⟨rep, _, b, hb, hbId⟩
      obtain ⟨hbMem, hbRep⟩ := List.mem_filter.mp hb.mem
      obtain rfl := List.inj_on_of_nodup_map hids (List.mem_of_mem_filter hbMem)
        (List.mem_of_mem_filter haMem) hbId
      rw [decide_eq_true_eq] at hbRep
      simp [hbRep] at hnone
    · obtain ⟨rep, hresult⟩ := List.mem_iff_getElem?.mp hmem
      have hreduces := hresults.reduces rep result hresult
      obtain ⟨a, ha, rfl, hne⟩ := (hreduces.excluded id).mp hexcluded
      obtain ⟨haMem, haRep⟩ := List.mem_filter.mp ha
      refine ⟨⟨a, haMem, rfl⟩, ?_⟩
      rintro ⟨other, _, b, hb, hbId⟩
      obtain ⟨hbMem, hbRep⟩ := List.mem_filter.mp hb.mem
      obtain rfl := List.inj_on_of_nodup_map hids (List.mem_of_mem_filter hbMem)
        (List.mem_of_mem_filter haMem) hbId
      rw [decide_eq_true_eq] at haRep hbRep
      obtain rfl : other = rep := Option.some.inj (hbRep.symm.trans haRep)
      exact hne ((hreduces.selected b).mpr hb)
  · rintro ⟨⟨a, ha, rfl⟩, hnot⟩
    cases hrep : repetitionOf inputs.manifest.maxRepetitions (jobRepetitionMap inputs.jobs) a with
    | none =>
        exact Or.inl ⟨a, List.mem_filter.mpr ⟨ha, by simp [hrep]⟩, rfl⟩
    | some rep =>
        have haAt : a ∈ inputs.attemptsOf key rep :=
          List.mem_filter.mpr ⟨ha, by simp [hrep]⟩
        have hlt := (MatrixInputs.mem_attemptsOf.mp haAt).2.1
        obtain ⟨result, hresult⟩ := hresults.getElem?_some hlt
        have hreduces := hresults.reduces rep result hresult
        refine Or.inr ⟨result, List.mem_of_getElem? hresult,
          (hreduces.excluded a.attemptId).mpr ⟨a, haAt, rfl, ?_⟩⟩
        intro hselected
        exact hnot ⟨rep, hlt, a, (hreduces.selected a).mp hselected, rfl⟩

/-- The rest of a cell is read off its preferred attempts. -/
theorem fields_eq (h : CellBuilt inputs key cell) :
    cell.repetitionOutcomes = inputs.outcomes key ∧
      cell.outcome = (cellVerdict inputs.manifest.maxRepetitions (inputs.outcomes key) []).1 ∧
      cell.evaluationValidity =
        (cellVerdict inputs.manifest.maxRepetitions (inputs.outcomes key) []).2.1 ∧
      cell.diagnosticCodes = dedupeCodes (inputs.codes key) := by
  obtain ⟨results, hresults, rfl⟩ := h
  have houtcomes : results.map RepetitionResult.outcome = inputs.outcomes key := by
    rw [MatrixInputs.outcomes, ← hresults.selected_eq, List.map_map]
    rfl
  have hcodes : results.filterMap RepetitionResult.diagnosticCode =
      (inputs.preferred key).filterMap fun a =>
        (a.bind EvaluationAttempt.errorCode).filter fun code => code ≠ "" := by
    rw [← hresults.selected_eq, List.filterMap_map]
    rfl
  simp only [assembleCell, houtcomes, hcodes]
  obtain ⟨houtcome, hvalidity, hdedupe⟩ := cellVerdict_codes inputs.manifest.maxRepetitions
    (inputs.outcomes key) ((inputs.preferred key).filterMap fun a =>
      (a.bind EvaluationAttempt.errorCode).filter fun code => code ≠ "")
  exact ⟨trivial, houtcome, hvalidity, hdedupe⟩

theorem header_eq (h : CellBuilt inputs key cell) :
    inputs.header key = ⟨cell.taskKey, cell.repositoryId, cell.caseId, cell.verifierKey,
      cell.adjudicationId, cell.label, cell.role⟩ ∧
      cell.plannedRepetitions = inputs.manifest.maxRepetitions := by
  obtain ⟨results, _, rfl⟩ := h
  exact ⟨rfl, rfl⟩

/-- Two cells of one key show the same exactly if the evidence is the same. -/
theorem sameCell_iff (h : CellBuilt inputs key cell) (h' : CellBuilt inputs' key cell')
    (hids : (inputs.attempts.map EvaluationAttempt.attemptId).Nodup)
    (hids' : (inputs'.attempts.map EvaluationAttempt.attemptId).Nodup) :
    SameCell cell cell' ↔ SameCellEvidence inputs inputs' key := by
  obtain ⟨houtcomes, houtcome, hvalidity, hcodes⟩ := h.fields_eq
  obtain ⟨houtcomes', houtcome', hvalidity', hcodes'⟩ := h'.fields_eq
  obtain ⟨hheader, hplanned⟩ := h.header_eq
  obtain ⟨hheader', hplanned'⟩ := h'.header_eq
  -- An attempt of the cell is selected or excluded, so the two lists tell its attempts.
  have hall : ∀ id, (∃ a ∈ cellAttempts inputs.jobs inputs.attempts key, a.attemptId = id) ↔
      id ∈ cell.excludedAttemptIds ∨ id ∈ cell.selectedAttemptIds := by
    intro id
    rw [h.excluded_iff hids]
    by_cases hselected : id ∈ cell.selectedAttemptIds
    · simp only [hselected, or_true, iff_true]
      obtain ⟨rep, _, a, ha, rfl⟩ := h.mem_selected.mp hselected
      exact ⟨a, List.mem_of_mem_filter ha.mem, rfl⟩
    · simp [hselected]
  have hall' : ∀ id, (∃ a ∈ cellAttempts inputs'.jobs inputs'.attempts key, a.attemptId = id) ↔
      id ∈ cell'.excludedAttemptIds ∨ id ∈ cell'.selectedAttemptIds := by
    intro id
    rw [h'.excluded_iff hids']
    by_cases hselected : id ∈ cell'.selectedAttemptIds
    · simp only [hselected, or_true, iff_true]
      obtain ⟨rep, _, a, ha, rfl⟩ := h'.mem_selected.mp hselected
      exact ⟨a, List.mem_of_mem_filter ha.mem, rfl⟩
    · simp [hselected]
  constructor
  · intro hsame
    refine ⟨?_, ?_, ?_, ?_, ?_, ?_⟩
    · rw [hheader, hheader', hsame.taskKey, hsame.repositoryId, hsame.caseId, hsame.verifierKey,
        hsame.adjudicationId, hsame.label, hsame.role]
    · rw [← hplanned, ← hplanned', hsame.plannedRepetitions]
    · intro id
      rw [hall, hall', hsame.excluded, hsame.selected]
    · intro id
      rw [← h.selected_iff, ← h'.selected_iff, hsame.selected]
    · rw [← houtcomes, ← houtcomes', hsame.repetitionOutcomes]
    · rw [← hcodes, ← hcodes', hsame.diagnosticCodes]
  · intro hevidence
    have hselected : ∀ id, id ∈ cell.selectedAttemptIds ↔ id ∈ cell'.selectedAttemptIds := by
      intro id
      rw [h.selected_iff, h'.selected_iff, hevidence.preferred]
    have heq := hheader.symm.trans (hevidence.header.trans hheader')
    simp only [CellHeader.mk.injEq] at heq
    obtain ⟨htask, hrepository, hcase, hverifier, hadjudication, hlabel, hrole⟩ := heq
    refine ⟨htask, hrepository, hcase, hverifier, hadjudication, hlabel, hrole, ?_, ?_, ?_,
      hselected, ?_, ?_, ?_⟩
    · rw [houtcome, houtcome', hevidence.outcomes, hevidence.planned]
    · rw [hvalidity, hvalidity', hevidence.outcomes, hevidence.planned]
    · rw [hplanned, hplanned', hevidence.planned]
    · intro id
      rw [h.excluded_iff hids, h'.excluded_iff hids', hevidence.attempts, hselected]
    · rw [houtcomes, houtcomes', hevidence.outcomes]
    · rw [hcodes, hcodes', hevidence.codes]

end CellBuilt

/-! ## What the id is computed from -/

theorem cellRecord_dumpable (cell : AcceptanceCell) : (cellRecord cell).Dumpable := by
  refine Json.dumpable_obj (by simp) ?_
  intro member hmember
  simp only [List.mem_cons, List.not_mem_nil, or_false] at hmember
  rcases hmember with rfl | rfl | rfl | rfl | rfl <;> trivial

/-- The payload of the id is made of texts, counts and lists of them. -/
theorem matrixIdPayload_dumpable (runId reducerVersion sourceAttemptsDigest : String)
    (cells : List AcceptanceCell) :
    (matrixIdPayload runId reducerVersion sourceAttemptsDigest cells).Dumpable := by
  refine Json.dumpable_obj (by simp) ?_
  intro member hmember
  simp only [List.mem_cons, List.not_mem_nil, or_false] at hmember
  rcases hmember with rfl | rfl | rfl | rfl
  · trivial
  · trivial
  · trivial
  · rw [Json.Dumpable, Json.itemsDumpable_iff]
    intro item hitem
    obtain ⟨cell, _, rfl⟩ := List.mem_map.mp hitem
    exact cellRecord_dumpable cell

def AcceptanceCell.key (cell : AcceptanceCell) : String × String × String :=
  (cell.taskKey, cell.caseId, cell.verifierKey)

theorem key_eq_of_cellRecord {cell cell' : AcceptanceCell}
    (h : (cellRecord cell).sortKeys = (cellRecord cell').sortKeys) : cell.key = cell'.key := by
  have hvalues := Json.values_eq_of_sortKeys_eq (by rfl) (by simp) h
  simp only [List.map_cons, List.map_nil, Json.sortKeys, List.cons.injEq, Json.str.injEq] at hvalues
  rw [AcceptanceCell.key, hvalues.1, hvalues.2.1, hvalues.2.2.1, AcceptanceCell.key]

/-- The payload determines the keys of the cells. -/
theorem keys_eq_of_payload {runId reducerVersion digest runId' reducerVersion' digest' : String}
    {cells cells' : List AcceptanceCell}
    (h : canonicalBytes (matrixIdPayload runId reducerVersion digest cells) =
      canonicalBytes (matrixIdPayload runId' reducerVersion' digest' cells')) :
    cells.map AcceptanceCell.key = cells'.map AcceptanceCell.key := by
  have hvalues := values_eq_of_canonicalBytes_eq (by rfl) (by simp)
    (matrixIdPayload_dumpable _ _ _ _) (matrixIdPayload_dumpable _ _ _ _) h
  simp only [List.map_cons, List.map_nil, Json.sortKeys, List.cons.injEq, Json.arr.injEq,
    Json.sortItems_eq, List.map_map] at hvalues
  have hcells := hvalues.2.2.2.1
  rw [← List.forall₂_eq_eq_eq, List.forall₂_map_left_iff, List.forall₂_map_right_iff] at hcells ⊢
  exact hcells.imp fun _ _ => key_eq_of_cellRecord

def hashedInputs (inputs : MatrixInputs) (reducerVersion : String) (matrix : AcceptanceMatrix) :
    List (List UInt8) :=
  [canonicalBytes (attemptRecords inputs.attempts),
    canonicalBytes (matrixIdPayload inputs.manifest.runId reducerVersion
      matrix.sourceAttemptsDigest matrix.cells)]

section Identity

variable {sha256 : List UInt8 → Digest} {inputs inputs' : MatrixInputs} {reducerVersion : String}
  {matrix matrix' : AcceptanceMatrix}

theorem Built.cells_map_key (h : Built sha256 inputs reducerVersion matrix) :
    matrix.cells.map AcceptanceCell.key = cellKeys inputs.jobs := by
  rw [← List.forall₂_eq_eq_eq, List.forall₂_map_left_iff]
  exact h.cells.flip.imp fun _ _ => CellBuilt.key_eq

/-- The flag asks for terminal jobs and for a selected attempt in every repetition. -/
theorem Built.complete_iff (h : Built sha256 inputs reducerVersion matrix) :
    matrix.complete = true ↔ inputs.Finished := by
  rw [h.complete, MatrixInputs.isComplete, Bool.and_eq_true, List.all_eq_true, List.all_eq_true,
    MatrixInputs.Finished]
  refine and_congr_right fun _ => ?_
  simp only [decide_eq_true_eq]
  constructor
  · intro hfull key hkey
    obtain ⟨cell, hcell, hbuilt⟩ := h.cell_of_key hkey
    exact hbuilt.full_iff.mp (hfull cell hcell)
  · intro hall cell hcell
    obtain ⟨key, hkey, hbuilt⟩ := h.key_of_cell hcell
    exact hbuilt.full_iff.mpr (hall key hkey)

theorem Built.hashed (h : Built sha256 inputs reducerVersion matrix) :
    (hashedInputs inputs reducerVersion matrix).map (fun bytes => (sha256 bytes).text) =
      [matrix.sourceAttemptsDigest, matrix.matrixId] := by
  rw [hashedInputs, List.map_cons, List.map_cons, List.map_nil, ← h.sourceAttemptsDigest,
    ← h.matrixId]

/-- Matrices with the same id show the same exactly if the evidence that the id does not see is
the same: labels, roles and repositories, and what attempts say beyond their outcome. -/
theorem sameContent_iff {now now' : Datetime}
    (hbuild : buildMatrix sha256 inputs reducerVersion now = .ok matrix)
    (hbuild' : buildMatrix sha256 inputs' reducerVersion now' = .ok matrix')
    (hid : matrix.matrixId = matrix'.matrixId)
    (hfree : CollisionFree sha256
      (hashedInputs inputs reducerVersion matrix ++ hashedInputs inputs' reducerVersion matrix')) :
    SameContent matrix matrix' ↔ SameEvidence inputs inputs' := by
  have h := buildMatrix_ok hbuild
  have h' := buildMatrix_ok hbuild'
  -- Equal ids are equal payloads, as nothing collides, and the payload lists the keys.
  have hpayload := hfree _ (by simp [hashedInputs]) _ (by simp [hashedInputs])
    (h.matrixId.symm.trans (hid.trans h'.matrixId))
  have hkeys : cellKeys inputs.jobs = cellKeys inputs'.jobs := by
    rw [← h.cells_map_key, ← h'.cells_map_key]
    exact keys_eq_of_payload hpayload
  have hcells := h.cells
  have hcells' := h'.cells
  rw [← hkeys] at hcells'
  have hcomplete : matrix.complete = matrix'.complete ↔ (inputs.Finished ↔ inputs'.Finished) := by
    rw [← h.complete_iff, ← h'.complete_iff, Bool.eq_iff_iff]
  -- Both lists of cells follow the keys, so they are compared key by key.
  have hsame : List.Forall₂ SameCell matrix.cells matrix'.cells ↔
      ∀ key ∈ cellKeys inputs.jobs, SameCellEvidence inputs inputs' key := by
    rw [List.forall₂_iff_get] at hcells hcells' ⊢
    constructor
    · rintro ⟨_, hall⟩ key hkey
      obtain ⟨i, hi, rfl⟩ := List.getElem_of_mem hkey
      exact ((hcells.2 i hi (hcells.1 ▸ hi)).sameCell_iff (hcells'.2 i hi (hcells'.1 ▸ hi))
        h.attemptIds h'.attemptIds).mp (hall i (hcells.1 ▸ hi) (hcells'.1 ▸ hi))
    · intro hall
      refine ⟨hcells.1.symm.trans hcells'.1, ?_⟩
      intro i hi hi'
      have hlt : i < (cellKeys inputs.jobs).length := hcells.1 ▸ hi
      exact ((hcells.2 i hlt hi).sameCell_iff (hcells'.2 i hlt hi') h.attemptIds
        h'.attemptIds).mpr (hall _ (List.get_mem _ ⟨i, hlt⟩))
  constructor
  · intro hcontent
    exact ⟨hsame.mp hcontent.cells, hcomplete.mp hcontent.complete⟩
  · intro hevidence
    exact ⟨hsame.mpr hevidence.cells, hcomplete.mpr hevidence.finished⟩

end Identity

/-! ## Two repositories -/

/-- The small run again, with a name for the repository of its task. -/
def mappedInputs : MatrixInputs :=
  { smallInputs with repositoryMap := some ⟨[("task", "repository")], by simp⟩ }

def mappedMatrix : AcceptanceMatrix :=
  { smallMatrix with
    cells := smallMatrix.cells.map fun cell => { cell with repositoryId := "repository" } }

theorem buildMatrix_mapped : buildMatrix matrixSha256 mappedInputs defaultReducerVersion
    smallManifest.timestamp = .ok mappedMatrix := by
  unfold buildMatrix matrixSha256
  simp only [canonicalBytes_eq]
  decide +kernel

theorem mapped_collisionFree : CollisionFree matrixSha256
    (hashedInputs smallInputs defaultReducerVersion smallMatrix ++
      hashedInputs mappedInputs defaultReducerVersion mappedMatrix) := by
  have hsame : hashedInputs mappedInputs defaultReducerVersion mappedMatrix =
      hashedInputs smallInputs defaultReducerVersion smallMatrix := rfl
  have hnodup : ((hashedInputs smallInputs defaultReducerVersion smallMatrix).map fun bytes =>
      (matrixSha256 bytes).text).Nodup := by
    rw [(buildMatrix_ok buildMatrix_small).hashed]
    decide
  rw [hsame]
  intro a ha b hb heq
  rw [List.mem_append, or_self_iff] at ha hb
  exact List.inj_on_of_nodup_map hnodup ha hb heq

/-- The small run twice, the second time with a name for its repository. -/
theorem sameContent_iff_mapped :
    SameContent smallMatrix mappedMatrix ↔ SameEvidence smallInputs mappedInputs :=
  sameContent_iff buildMatrix_small buildMatrix_mapped rfl mapped_collisionFree

/-- One id for two repositories, without a collision: the name is shown in the cells and left
out of what is hashed. -/
theorem id_ignores_repository :
    ∃ matrix matrix', buildMatrix matrixSha256 smallInputs defaultReducerVersion
        smallManifest.timestamp = .ok matrix ∧
      buildMatrix matrixSha256 mappedInputs defaultReducerVersion smallManifest.timestamp =
        .ok matrix' ∧
      mappedInputs.manifest.runId = smallInputs.manifest.runId ∧
      CollisionFree matrixSha256 (hashedInputs smallInputs defaultReducerVersion matrix ++
        hashedInputs mappedInputs defaultReducerVersion matrix') ∧
      matrix.matrixId = matrix'.matrixId ∧ ¬ SameContent matrix matrix' := by
  refine ⟨smallMatrix, mappedMatrix, buildMatrix_small, buildMatrix_mapped, rfl,
    mapped_collisionFree, rfl, ?_⟩
  intro hcontent
  cases hcontent.cells with
  | cons hcell _ => exact absurd hcell.repositoryId (by decide)

end VerifierCI
