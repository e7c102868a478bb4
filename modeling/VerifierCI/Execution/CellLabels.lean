import VerifierCI.Execution.MatrixOrder

/-! # The labels of cells

A cell is labelled by the adjudication under its case id, else by the first about
its case in the order of the mapping. Revisions are not looked at, so that it is
up to the caller to supply each case's current decision only.
-/

namespace VerifierCI

open Python Relational

namespace MatrixInputs

variable (inputs : MatrixInputs)

/-- The same inputs with another mapping of adjudications. -/
def adjudicatedBy (adjudications : Table (Prod.fst : String × Adjudication → String)) :
    MatrixInputs :=
  { inputs with adjudications := adjudications }

/-- Another adjudication of the same case, among those supplied, replaces this one. -/
def Superseded (adjudication : Adjudication) : Prop :=
  ∃ entry ∈ inputs.adjudications, entry.2 ≠ adjudication ∧
    entry.2.caseId = adjudication.caseId ∧
      entry.2.supersedesId = some adjudication.adjudicationId

/-- The decision on a case is the same whichever adjudication is found: the one
under the case id, or any about the case if there is none. -/
structure Settled (caseId : String) : Prop where
  keyed : ∀ adjudication, (caseId, adjudication) ∈ inputs.adjudications →
    adjudication.caseId = caseId ∧ ¬ inputs.Superseded adjudication
  current : (∀ adjudication, (caseId, adjudication) ∉ inputs.adjudications) →
    ∀ entry ∈ inputs.adjudications, entry.2.caseId = caseId → ¬ inputs.Superseded entry.2
  agreed : (∀ adjudication, (caseId, adjudication) ∉ inputs.adjudications) →
    ∀ entry ∈ inputs.adjudications, entry.2.caseId = caseId →
      ∀ other ∈ inputs.adjudications, other.2.caseId = caseId →
        entry.2.adjudicationId = other.2.adjudicationId ∧ entry.2.label = other.2.label

end MatrixInputs

/-- The cells of two calls show the same decision, and that of the second is a
current one on the case of the cell. -/
structure SameDecision (inputs' : MatrixInputs) (cell cell' : AcceptanceCell) : Prop where
  adjudicationId : cell'.adjudicationId = cell.adjudicationId
  label : cell'.label = cell.label
  used : ∀ adjudication, inputs'.adjudicationOf cell'.caseId = some adjudication →
    cell'.adjudicationId = adjudication.adjudicationId ∧ cell'.label = adjudication.label ∧
      adjudication.caseId = cell'.caseId ∧ ¬ inputs'.Superseded adjudication

/-- The order of the adjudications does not matter. -/
def DecisionsStable (sha256 : List UInt8 → Digest) (inputs : MatrixInputs)
    (reducerVersion : String) : Prop :=
  ∀ adjudications : Table (Prod.fst : String × Adjudication → String),
    adjudications.rows.Perm inputs.adjudications.rows →
      ∀ now now' matrix, buildMatrix sha256 inputs reducerVersion now = .ok matrix →
        ∃ matrix', buildMatrix sha256 (inputs.adjudicatedBy adjudications) reducerVersion now' =
          .ok matrix' ∧
            List.Forall₂ (SameDecision (inputs.adjudicatedBy adjudications)) matrix.cells
              matrix'.cells

/-! ## Looking up adjudications -/

section Lookup

variable {inputs : MatrixInputs} {caseId : String}
  {adjudications : Table (Prod.fst : String × Adjudication → String)}

/-- The direct lookup wins, whatever the adjudication found says about its case. -/
theorem adjudicationOf_keyed {adjudication : Adjudication}
    (h : (caseId, adjudication) ∈ inputs.adjudications) :
    inputs.adjudicationOf caseId = some adjudication := by
  have hfind : inputs.adjudications.find? caseId = some (caseId, adjudication) :=
    Table.find?_eq_some_iff.mpr ⟨h, rfl⟩
  rw [MatrixInputs.adjudicationOf, hfind]

/-- Without the key the mapping is scanned in its order, and the first adjudication of the case
is taken. -/
theorem adjudicationOf_unkeyed
    (h : ∀ adjudication, (caseId, adjudication) ∉ inputs.adjudications) :
    inputs.adjudicationOf caseId = (inputs.adjudications.rows.map Prod.snd).find?
      fun adjudication => adjudication.caseId = caseId := by
  rw [MatrixInputs.adjudicationOf, Table.find?_eq_none_iff.mpr]
  rintro ⟨key, adjudication⟩ hmem rfl
  exact h adjudication hmem

theorem mem_adjudicatedBy (hperm : adjudications.rows.Perm inputs.adjudications.rows)
    {entry : String × Adjudication} :
    entry ∈ (inputs.adjudicatedBy adjudications).adjudications ↔ entry ∈ inputs.adjudications :=
  hperm.mem_iff

theorem superseded_adjudicatedBy (hperm : adjudications.rows.Perm inputs.adjudications.rows)
    {adjudication : Adjudication} :
    (inputs.adjudicatedBy adjudications).Superseded adjudication ↔
      inputs.Superseded adjudication := by
  simp only [MatrixInputs.Superseded, mem_adjudicatedBy hperm]

/-- What is found under the case id or about the case. -/
theorem adjudicationOf_cases (inputs : MatrixInputs) (caseId : String) :
    (∃ adjudication, (caseId, adjudication) ∈ inputs.adjudications ∧
      inputs.adjudicationOf caseId = some adjudication) ∨
    ((∀ adjudication, (caseId, adjudication) ∉ inputs.adjudications) ∧
      ((∃ entry ∈ inputs.adjudications, entry.2.caseId = caseId ∧
        inputs.adjudicationOf caseId = some entry.2) ∨
      ((∀ entry ∈ inputs.adjudications, entry.2.caseId ≠ caseId) ∧
        inputs.adjudicationOf caseId = none))) := by
  by_cases hkeyed : ∃ adjudication, (caseId, adjudication) ∈ inputs.adjudications
  · obtain ⟨adjudication, hmem⟩ := hkeyed
    exact Or.inl ⟨adjudication, hmem, adjudicationOf_keyed hmem⟩
  · have hunkeyed := not_exists.mp hkeyed
    refine Or.inr ⟨hunkeyed, ?_⟩
    rw [adjudicationOf_unkeyed hunkeyed]
    cases hfind : (inputs.adjudications.rows.map Prod.snd).find? fun adjudication =>
        adjudication.caseId = caseId with
    | none =>
        refine Or.inr ⟨?_, rfl⟩
        intro entry hentry hcase
        have hnot := List.find?_eq_none.mp hfind entry.2 (List.mem_map_of_mem hentry)
        exact hnot (decide_eq_true hcase)
    | some adjudication =>
        obtain ⟨entry, hentry, rfl⟩ := List.mem_map.mp (List.mem_of_find?_eq_some hfind)
        exact Or.inl ⟨entry, hentry, by simpa using List.find?_some hfind, rfl⟩

/-- A settled case has one decision, whatever the order. It is the one under the key of the
case, or else one of those the scan may meet first, which agree on id and label. -/
theorem MatrixInputs.Settled.lookup (h : inputs.Settled caseId)
    (hperm : adjudications.rows.Perm inputs.adjudications.rows) :
    ((inputs.adjudicatedBy adjudications).adjudicationOf caseId = none ∧
      inputs.adjudicationOf caseId = none) ∨
    ∃ a a', inputs.adjudicationOf caseId = some a ∧
      (inputs.adjudicatedBy adjudications).adjudicationOf caseId = some a' ∧
        a'.adjudicationId = a.adjudicationId ∧ a'.label = a.label ∧ a'.caseId = caseId ∧
          ¬ inputs.Superseded a' := by
  rcases adjudicationOf_cases inputs caseId with ⟨a, hmem, ha⟩ | ⟨hunkeyed, hscan⟩
  · have ha' := adjudicationOf_keyed ((mem_adjudicatedBy hperm).mpr hmem)
    obtain ⟨hcase, hcurrent⟩ := h.keyed a hmem
    exact Or.inr ⟨a, a, ha, ha', rfl, rfl, hcase, hcurrent⟩
  · rcases adjudicationOf_cases (inputs.adjudicatedBy adjudications) caseId with
      ⟨a', hmem', _⟩ | ⟨_, hscan'⟩
    · exact absurd ((mem_adjudicatedBy hperm).mp hmem') (hunkeyed a')
    · simp only [mem_adjudicatedBy hperm] at hscan'
      rcases hscan with ⟨entry, hentry, hcase, ha⟩ | ⟨hnone, ha⟩
      · rcases hscan' with ⟨entry', hentry', hcase', ha'⟩ | ⟨hnone', _⟩
        · obtain ⟨hid, hlabel⟩ := h.agreed hunkeyed entry' hentry' hcase' entry hentry hcase
          exact Or.inr ⟨entry.2, entry'.2, ha, ha', hid, hlabel, hcase',
            h.current hunkeyed entry' hentry' hcase'⟩
        · exact absurd hcase (hnone' entry hentry)
      · rcases hscan' with ⟨entry', hentry', hcase', _⟩ | ⟨_, ha'⟩
        · exact absurd hcase' (hnone entry' hentry')
        · exact Or.inl ⟨ha', ha⟩

/-- The label of a cell is read off the decision on its case, and that is the same in every
order. -/
theorem MatrixInputs.Settled.header (h : inputs.Settled caseId)
    (hperm : adjudications.rows.Perm inputs.adjudications.rows)
    (taskKey verifierKey : String) :
    ((inputs.adjudicatedBy adjudications).header (taskKey, caseId, verifierKey)).adjudicationId =
        (inputs.header (taskKey, caseId, verifierKey)).adjudicationId ∧
      ((inputs.adjudicatedBy adjudications).header (taskKey, caseId, verifierKey)).label =
        (inputs.header (taskKey, caseId, verifierKey)).label := by
  simp only [MatrixInputs.header]
  rcases h.lookup hperm with ⟨ha', ha⟩ | ⟨a, a', ha, ha', hid, hlabel, _⟩
  · rw [ha, ha']
    exact ⟨rfl, rfl⟩
  · rw [ha, ha']
    exact ⟨hid, hlabel⟩

end Lookup

/-! ## Labels of built cells -/

section Labels

variable {sha256 : List UInt8 → Digest} {inputs : MatrixInputs} {reducerVersion : String}
  {now now' : Datetime} {matrix : AcceptanceMatrix} {key : String × String × String}
  {cell : AcceptanceCell}
  {adjudications : Table (Prod.fst : String × Adjudication → String)}

/-- A cell shows the adjudication its case id leads to. -/
theorem decision_of_buildCell {adjudication : Adjudication}
    (hcell : inputs.buildCell key = .ok cell)
    (h : inputs.adjudicationOf cell.caseId = some adjudication) :
    cell.adjudicationId = adjudication.adjudicationId ∧ cell.label = adjudication.label := by
  obtain ⟨results, _, heq⟩ := bind_eq_ok.mp hcell
  obtain rfl := Except.ok.inj heq
  have h : inputs.adjudicationOf key.2.1 = some adjudication := h
  simp only [assembleCell, MatrixInputs.header, h]
  exact ⟨trivial, trivial⟩

theorem buildCell_adjudicatedBy (hsettled : inputs.Settled key.2.1)
    (hperm : adjudications.rows.Perm inputs.adjudications.rows)
    (hcell : inputs.buildCell key = .ok cell) :
    ∃ cell', (inputs.adjudicatedBy adjudications).buildCell key = .ok cell' ∧
      SameDecision (inputs.adjudicatedBy adjudications) cell cell' := by
  obtain ⟨results, hresults, heq⟩ := bind_eq_ok.mp hcell
  obtain rfl := Except.ok.inj heq
  have hcell' : (inputs.adjudicatedBy adjudications).buildCell key = .ok
      (assembleCell ((inputs.adjudicatedBy adjudications).header key) _ _ results) :=
    bind_eq_ok.mpr ⟨results, hresults, rfl⟩
  obtain ⟨hid, hlabel⟩ := hsettled.header hperm key.1 key.2.2
  refine ⟨_, hcell', hid, hlabel, ?_⟩
  intro adjudication hfound
  obtain ⟨hshown, hshownLabel⟩ := decision_of_buildCell hcell' hfound
  have hfound : (inputs.adjudicatedBy adjudications).adjudicationOf key.2.1 = some adjudication :=
    hfound
  rcases hsettled.lookup hperm with ⟨hnone, _⟩ | ⟨_, a', _, ha', _, _, hcase, hcurrent⟩
  · rw [hnone] at hfound
    cases hfound
  · obtain rfl := Option.some.inj (ha'.symm.trans hfound)
    exact ⟨hshown, hshownLabel, hcase, fun h => hcurrent ((superseded_adjudicatedBy hperm).mp h)⟩

/-- Settled cases are decided alike in every order. -/
theorem decisionsStable_of_settled (hsettled : ∀ job ∈ inputs.jobs, inputs.Settled job.caseId) :
    DecisionsStable sha256 inputs reducerVersion := by
  intro adjudications hperm now now' matrix hbuild
  obtain ⟨cells', hcells', hsame⟩ := forall₂_extend (mapM_eq_ok.mp (buildMatrix_cells hbuild))
    (S := fun key cell => (inputs.adjudicatedBy adjudications).buildCell key = .ok cell)
    (T := SameDecision (inputs.adjudicatedBy adjudications)) (by
      intro key hkey cell hcell
      obtain ⟨job, hjob, rfl⟩ := mem_cellKeys.mp hkey
      exact buildCell_adjudicatedBy (hsettled job hjob) hperm hcell)
  have hbuilt := buildMatrix_ok hbuild
  have hidentified : (inputs.adjudicatedBy adjudications).Identified :=
    ⟨hbuilt.jobIds, hbuilt.attemptIds,
      fun attempt hattempt => exists_jobById_iff.mp (hbuilt.known attempt hattempt)⟩
  obtain ⟨matrix', hmatrix', hcells⟩ : ∃ matrix', buildMatrix sha256
      (inputs.adjudicatedBy adjudications) reducerVersion now' = .ok matrix' ∧
        matrix'.cells = cells' :=
    buildMatrix_returns hidentified (mapM_eq_ok.mpr hcells')
  exact ⟨matrix', hmatrix', hcells ▸ hsame⟩

/-- In stable decisions the adjudication found about the case of a job is current
and the one shown. -/
theorem DecisionsStable.used (h : DecisionsStable sha256 inputs reducerVersion)
    (hbuild : buildMatrix sha256 inputs reducerVersion now = .ok matrix) {job : Job}
    (hjob : job ∈ inputs.jobs) :
    ∃ cell ∈ matrix.cells, ∀ adjudications : Table (Prod.fst : String × Adjudication → String),
      adjudications.rows.Perm inputs.adjudications.rows → ∀ adjudication,
        (inputs.adjudicatedBy adjudications).adjudicationOf job.caseId = some adjudication →
          cell.adjudicationId = adjudication.adjudicationId ∧ cell.label = adjudication.label ∧
            adjudication.caseId = job.caseId ∧ ¬ inputs.Superseded adjudication := by
  have hkey : job.cellKey ∈ cellKeys inputs.jobs := mem_cellKeys.mpr ⟨job, hjob, rfl⟩
  obtain ⟨i, hi, hget⟩ := List.getElem_of_mem hkey
  have hcells := mapM_eq_ok.mp (buildMatrix_cells hbuild)
  have hlength : i < matrix.cells.length := hcells.length_eq ▸ hi
  refine ⟨matrix.cells[i], List.getElem_mem hlength, ?_⟩
  intro adjudications hperm adjudication hfound
  obtain ⟨matrix', hmatrix', hsame⟩ := h adjudications hperm now now matrix hbuild
  have hlength' : i < matrix'.cells.length := hsame.length_eq ▸ hlength
  have hdecision := hsame.get hlength hlength'
  have hcell' := (mapM_eq_ok.mp (buildMatrix_cells hmatrix')).get hi hlength'
  have hcase : matrix'.cells[i].caseId = job.caseId := by
    obtain ⟨results, _, heq⟩ := bind_eq_ok.mp hcell'
    have hcell : matrix'.cells[i] = assembleCell _ _ _ results := (Except.ok.inj heq).symm
    rw [hcell]
    exact congrArg (fun key : String × String × String => key.2.1) hget
  obtain ⟨hid, hlabel, hown, hcurrent⟩ := hdecision.used adjudication (hcase ▸ hfound)
  exact ⟨hdecision.adjudicationId.symm.trans hid, hdecision.label.symm.trans hlabel,
    hown.trans hcase,
      fun hsuperseded => hcurrent ((superseded_adjudicatedBy hperm).mpr hsuperseded)⟩

/-- An entry can be put first. -/
theorem exists_first {entry : String × Adjudication} (hentry : entry ∈ inputs.adjudications) :
    ∃ adjudications : Table (Prod.fst : String × Adjudication → String),
      adjudications.rows.Perm inputs.adjudications.rows ∧
        adjudications.rows.head? = some entry := by
  obtain ⟨before, after, hrows⟩ := List.append_of_mem (Table.mem_def.mp hentry)
  have hperm : (entry :: (before ++ after)).Perm inputs.adjudications.rows := by
    rw [hrows]
    exact List.perm_middle.symm
  exact ⟨⟨entry :: (before ++ after),
    (hperm.map Prod.fst).nodup_iff.mpr inputs.adjudications.nodup⟩, hperm, rfl⟩

/-- Were two decisions left for one case, the order that puts the other one first would label
the cell by it. -/
theorem DecisionsStable.settled (h : DecisionsStable sha256 inputs reducerVersion)
    (hbuild : buildMatrix sha256 inputs reducerVersion now = .ok matrix) {job : Job}
    (hjob : job ∈ inputs.jobs) : inputs.Settled job.caseId := by
  obtain ⟨cell, _, hused⟩ := h.used hbuild hjob
  -- every adjudication about the case is found in some order
  have hcurrent : (∀ adjudication, (job.caseId, adjudication) ∉ inputs.adjudications) →
      ∀ entry ∈ inputs.adjudications, entry.2.caseId = job.caseId →
        cell.adjudicationId = entry.2.adjudicationId ∧ cell.label = entry.2.label ∧
          ¬ inputs.Superseded entry.2 := by
    intro hunkeyed entry hentry hcase
    obtain ⟨adjudications, hperm, hhead⟩ := exists_first hentry
    have hfound : (inputs.adjudicatedBy adjudications).adjudicationOf job.caseId =
        some entry.2 := by
      rw [adjudicationOf_unkeyed (fun a ha => hunkeyed a ((mem_adjudicatedBy hperm).mp ha))]
      obtain ⟨rest, hrest⟩ := List.head?_eq_some_iff.mp hhead
      change (adjudications.rows.map Prod.snd).find? _ = _
      rw [hrest, List.map_cons]
      exact List.find?_cons_of_pos (decide_eq_true hcase)
    obtain ⟨hid, hlabel, _, hnot⟩ := hused adjudications hperm entry.2 hfound
    exact ⟨hid, hlabel, hnot⟩
  refine ⟨?_, ?_, ?_⟩
  · intro adjudication hmem
    obtain ⟨_, _, hcase, hnot⟩ := hused inputs.adjudications (.refl _) adjudication
      (adjudicationOf_keyed hmem)
    exact ⟨hcase, hnot⟩
  · intro hunkeyed entry hentry hcase
    exact (hcurrent hunkeyed entry hentry hcase).2.2
  · intro hunkeyed entry hentry hcase other hother hotherCase
    obtain ⟨hid, hlabel, _⟩ := hcurrent hunkeyed entry hentry hcase
    obtain ⟨hotherId, hotherLabel, _⟩ := hcurrent hunkeyed other hother hotherCase
    exact ⟨hid.symm.trans hotherId, hlabel.symm.trans hotherLabel⟩

/-- Where a matrix is returned, its labels are stable exactly if the cases of all jobs are
settled. A case with a key of its own is settled by the decision under it, any other by all
decisions about it. -/
theorem decisionsStable_iff
    (hbuild : buildMatrix sha256 inputs reducerVersion now = .ok matrix) :
    DecisionsStable sha256 inputs reducerVersion ↔
      ∀ job ∈ inputs.jobs, inputs.Settled job.caseId :=
  ⟨fun h _ hjob => h.settled hbuild hjob, decisionsStable_of_settled⟩

end Labels

/-! ## A revised decision -/

def firstDecision : Adjudication where
  adjudicationId := "old"
  caseId := "case"
  label := .valid
  supersedesId := none

def revisedDecision : Adjudication where
  adjudicationId := "new"
  caseId := "case"
  label := .invalid
  supersedesId := some "old"

def labelledCells (adjudicationId : String) (label : Label) : List AcceptanceCell :=
  [{ acceptedCell "candidate" "second" with adjudicationId := adjudicationId, label := label },
    { acceptedCell "verifier" "first" with adjudicationId := adjudicationId, label := label }]

/-- The revision under the id of its case, beside the decision it replaces and one on another
case. -/
def settledInputs : MatrixInputs :=
  smallInputs.adjudicatedBy ⟨[("old", firstDecision), ("case", revisedDecision),
    ("other", { firstDecision with adjudicationId := "other", caseId := "elsewhere" })], by decide⟩

theorem settledInputs_identified : settledInputs.Identified :=
  ⟨by decide, by decide, by decide⟩

theorem mem_settledInputs {entry : String × Adjudication} :
    entry ∈ settledInputs.adjudications ↔ entry = ("old", firstDecision) ∨
      entry = ("case", revisedDecision) ∨
      entry = ("other",
        { firstDecision with adjudicationId := "other", caseId := "elsewhere" }) := by
  rw [Table.mem_def]
  change entry ∈ [_, _, _] ↔ _
  simp

theorem settledInputs_superseded : settledInputs.Superseded firstDecision := by
  refine ⟨("case", revisedDecision), mem_settledInputs.mpr (Or.inr (Or.inl rfl)), ?_, rfl, rfl⟩
  intro heq
  cases congrArg Adjudication.label heq

/-- The replaced decision stands first, but the one under the case id is found. A lookup by key
comes before the scan, so the order of insertion makes no difference here. -/
theorem decisionsStable_settled :
    ∃ matrix, buildMatrix matrixSha256 settledInputs defaultReducerVersion
        smallManifest.timestamp = .ok matrix ∧
      matrix.cells = labelledCells "new" .invalid ∧ settledInputs.Superseded firstDecision ∧
      DecisionsStable matrixSha256 settledInputs defaultReducerVersion := by
  obtain ⟨matrix, hmatrix, hcells⟩ : ∃ matrix, buildMatrix matrixSha256 settledInputs
      defaultReducerVersion smallManifest.timestamp = .ok matrix ∧
        matrix.cells = labelledCells "new" .invalid :=
    buildMatrix_returns settledInputs_identified rfl
  refine ⟨matrix, hmatrix, hcells, settledInputs_superseded, (decisionsStable_iff hmatrix).mpr ?_⟩
  intro job hjob
  have hcase : job.caseId = "case" := by
    revert job
    decide
  have hkeyed : ("case", revisedDecision) ∈ settledInputs.adjudications :=
    mem_settledInputs.mpr (Or.inr (Or.inl rfl))
  rw [hcase]
  refine ⟨?_, fun hnone => absurd hkeyed (hnone _), fun hnone => absurd hkeyed (hnone _)⟩
  intro adjudication hmem
  obtain rfl : adjudication = revisedDecision :=
    congrArg Prod.snd (Table.eq_of_key_eq hmem hkeyed rfl)
  refine ⟨rfl, ?_⟩
  rintro ⟨entry, hentry, _, _, hreplaces⟩
  rcases mem_settledInputs.mp hentry with rfl | rfl | rfl <;>
    simp [firstDecision, revisedDecision] at hreplaces

/-- Both decisions under their own ids. -/
def revisedInputs : MatrixInputs :=
  smallInputs.adjudicatedBy ⟨[("old", firstDecision), ("new", revisedDecision)], by decide⟩

/-- The same decisions with the revision inserted first. -/
def revisedFirst : Table (Prod.fst : String × Adjudication → String) :=
  ⟨[("new", revisedDecision), ("old", firstDecision)], by decide⟩

/-- The replaced decision labels the cells unless its revision is inserted first. The scan stops
at the first decision about the case and does not look at what replaces what. -/
theorem label_depends_on_insertion :
    (∃ matrix, buildMatrix matrixSha256 revisedInputs defaultReducerVersion
      smallManifest.timestamp = .ok matrix ∧ matrix.cells = labelledCells "old" .valid) ∧
    (∃ matrix, buildMatrix matrixSha256 (revisedInputs.adjudicatedBy revisedFirst)
      defaultReducerVersion smallManifest.timestamp = .ok matrix ∧
        matrix.cells = labelledCells "new" .invalid) ∧
    ¬ DecisionsStable matrixSha256 revisedInputs defaultReducerVersion := by
  have hidentified : smallInputs.Identified := ⟨by decide, by decide, by decide⟩
  have hfirst : ∃ matrix, buildMatrix matrixSha256 revisedInputs defaultReducerVersion
      smallManifest.timestamp = .ok matrix ∧ matrix.cells = labelledCells "old" .valid :=
    buildMatrix_returns ⟨hidentified.jobIds, hidentified.attemptIds, hidentified.known⟩ rfl
  have hsecond : ∃ matrix, buildMatrix matrixSha256 (revisedInputs.adjudicatedBy revisedFirst)
      defaultReducerVersion smallManifest.timestamp = .ok matrix ∧
        matrix.cells = labelledCells "new" .invalid :=
    buildMatrix_returns ⟨hidentified.jobIds, hidentified.attemptIds, hidentified.known⟩ rfl
  refine ⟨hfirst, hsecond, ?_⟩
  intro h
  obtain ⟨matrix, hmatrix, hcells⟩ := hfirst
  obtain ⟨matrix', hmatrix', hsame⟩ := h revisedFirst (.swap _ _ _) smallManifest.timestamp
    smallManifest.timestamp matrix hmatrix
  obtain ⟨_, hbuilt, hcells'⟩ := hsecond
  obtain rfl := Except.ok.inj (hmatrix'.symm.trans hbuilt)
  rw [hcells, hcells'] at hsame
  cases hsame with
  | cons hdecision _ => cases hdecision.label

end VerifierCI
