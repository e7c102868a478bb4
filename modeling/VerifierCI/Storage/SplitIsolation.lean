import VerifierCI.Storage.Panels

/-! # Split isolation

A case or family reserved for assessment is to stay out of every development
and training panel. The guard looks at reservations when a member is added and
at nothing when a reservation is added, so the split is isolated exactly as long
as nobody reserves what such a panel already holds.
-/

namespace VerifierCI

open Relational Transition

/-- The case is a member of a development or training panel. -/
def PanelDb.Trains (db : PanelDb) (case : PatchCaseRow) : Prop :=
  ∃ panel ∈ db.patchPanels, panel.split.isTraining = true ∧ ∃ row ∈ db.panelMemberships,
    panel.panelKey = some row.panelKey ∧ case.caseId = some row.caseId

/-- No such case is reserved, itself or by its family. -/
def PanelDb.Isolated (db : PanelDb) : Prop :=
  ∀ case ∈ db.patchCases, db.Trains case → ∀ reservation ∈ db.splitReservations,
    reservation.reserves case = false

/-- The statement reserves no case that is already in use. -/
def KeepsIsolation (db : PanelDb) : PanelStatement → Prop
  | .insertReservations _ rows => ∀ case ∈ db.patchCases, db.Trains case →
      ∀ reservation ∈ rows, reservation.reserves case = false
  | _ => True

/-! ## Keys -/

/-- Keys are unique, and the panel and the case of a member are stored. -/
structure PanelDb.Keyed (db : PanelDb) : Prop where
  panels : (panelGuards []).Unique db.patchPanels
  cases : caseGuards.Unique db.patchCases
  members : ∀ row ∈ db.panelMemberships, db.hasPanel row.panelKey = true ∧
    db.hasCase row.caseId = true

section Keys

variable {db db' : PanelDb} {statement : PanelStatement}

theorem sameKey_some {key : String} {a b : Option String} (ha : a = some key) (hb : b = some key) :
    sameKey a b = true := by
  simp [sameKey, ha, hb]

theorem PanelDb.Keyed.panel_eq (h : db.Keyed) {panel other : PatchPanelRow} {key : String}
    (hpanel : panel ∈ db.patchPanels) (hother : other ∈ db.patchPanels)
    (hkey : panel.panelKey = some key) (hkey' : other.panelKey = some key) : panel = other := by
  apply h.panels.eq_of_clashes hpanel hother
  · simp only [panelGuards, sameKey_some hkey hkey', Bool.true_or]
  · simp only [panelGuards, sameKey_some hkey' hkey, Bool.true_or]

theorem hasPanel_iff {key : String} :
    db.hasPanel key = true ↔ ∃ panel ∈ db.patchPanels, panel.panelKey = some key := by
  simp [PanelDb.hasPanel]

theorem hasCase_iff {key : String} :
    db.hasCase key = true ↔ ∃ case ∈ db.patchCases, case.caseId = some key := by
  simp [PanelDb.hasCase]

/-- A panel that fits does not carry the key of a stored one. -/
theorem panelKey_ne_of_fits {rows : List PatchPanelRow} {panel : PatchPanelRow} {key : String}
    (hfits : (panelGuards []).Fits db.patchPanels rows) (hpanel : panel ∈ rows)
    (hstored : db.hasPanel key = true) : panel.panelKey ≠ some key := by
  intro hkey
  obtain ⟨other, hother, hkey'⟩ := hasPanel_iff.mp hstored
  have hclash := hfits.not_clashes panel hpanel other hother
  simp only [panelGuards, sameKey_some hkey hkey', Bool.true_or] at hclash
  cases hclash

theorem caseId_ne_of_fits {rows : List PatchCaseRow} {case : PatchCaseRow} {key : String}
    (hfits : caseGuards.Fits db.patchCases rows) (hcase : case ∈ rows)
    (hstored : db.hasCase key = true) : case.caseId ≠ some key := by
  intro hkey
  obtain ⟨other, hother, hkey'⟩ := hasCase_iff.mp hstored
  have hclash := hfits.not_clashes case hcase other hother
  simp only [caseGuards, sameKey_some hkey hkey'] at hclash
  cases hclash

def PatchPanelRow.SameCore (panel panel' : PatchPanelRow) : Prop :=
  panel'.panelKey = panel.panelKey ∧ panel'.split = panel.split ∧
    panel'.panelId = panel.panelId ∧ panel'.version = panel.version

/-- The triggers let an UPDATE of panels change no core column. -/
theorem marked_sameCore {columns : List PanelColumn} {values : PatchPanelRow → PatchPanelRow}
    {selects : PatchPanelRow → Bool}
    (hpasses : ∀ row ∈ db.patchPanels, selects row = true →
      panelsBeforeUpdate columns row (row.set columns (values row)) = none) :
    ∀ panel ∈ db.patchPanels,
      panel.SameCore (if selects panel then panel.set columns (values panel) else panel) := by
  intro panel hpanel
  split
  next hselects =>
    obtain ⟨hcore, _⟩ := panelsBeforeUpdate_eq_none (hpasses panel hpanel hselects)
    rw [set_of_not_core hcore panel (values panel)]
    exact ⟨rfl, rfl, rfl, rfl⟩
  next => exact ⟨rfl, rfl, rfl, rfl⟩

/-- Keys stay unique, and what members refer to is never deleted. Panels and cases are never
deleted and never change their keys. -/
theorem PanelEffect.keyed (h : PanelEffect db statement db') (hkeyed : db.Keyed) : db'.Keyed := by
  obtain ⟨hpanels, hcases, hmembers⟩ := hkeyed
  cases h with
  | @panels _ rows hfits =>
      refine ⟨hfits.unique hpanels, hcases, ?_⟩
      intro row hrow
      obtain ⟨hpanel, hcase⟩ := hmembers row hrow
      obtain ⟨panel, hmem, hkey⟩ := hasPanel_iff.mp hpanel
      exact ⟨hasPanel_iff.mpr ⟨panel, List.mem_append_left _ hmem, hkey⟩, hcase⟩
  | @marked columns values selects hpasses =>
      have hcore := marked_sameCore hpasses
      refine ⟨hpanels.map ?_, hcases, ?_⟩
      · intro row hrow later hlater
        obtain ⟨hkey, _, hid, hversion⟩ := hcore row hrow
        obtain ⟨hkey', _, hid', hversion'⟩ := hcore later hlater
        simp only [panelGuards, hkey, hid, hversion, hkey', hid', hversion']
      · intro row hrow
        obtain ⟨hpanel, hcase⟩ := hmembers row hrow
        obtain ⟨panel, hmem, hkey⟩ := hasPanel_iff.mp hpanel
        refine ⟨hasPanel_iff.mpr ⟨_, List.mem_map_of_mem hmem, ?_⟩, hcase⟩
        exact (hcore panel hmem).1.trans hkey
  | @cases _ rows hfits =>
      refine ⟨hpanels, hfits.unique hcases, ?_⟩
      intro row hrow
      obtain ⟨hpanel, hcase⟩ := hmembers row hrow
      obtain ⟨case, hmem, hkey⟩ := hasCase_iff.mp hcase
      exact ⟨hpanel, hasCase_iff.mpr ⟨case, List.mem_append_left _ hmem, hkey⟩⟩
  | @members _ rows hfits hresolves =>
      refine ⟨hpanels, hcases, ?_⟩
      intro row hrow
      rcases List.mem_append.mp hrow with hrow | hrow
      · exact hmembers row hrow
      · have hresolved := hresolves row hrow
        simp only [PanelMembershipRow.resolves, Bool.and_eq_true] at hresolved
        exact hresolved.1
  | reservations => exact ⟨hpanels, hcases, hmembers⟩
  | elsewhere => exact ⟨hpanels, hcases, hmembers⟩
  | kept => exact ⟨hpanels, hcases, hmembers⟩

end Keys

/-! ## One statement -/

section Statement

variable {db db' : PanelDb} {statement : PanelStatement}

/-- The guard lets no reserved case into a panel used for development or training. The trigger
looks up the panel and the case of the new member, which are the only ones with these keys. -/
theorem guard_reserves (hkeyed : db.Keyed) {row : PanelMembershipRow}
    (hguard : guardDevelopmentMembership db row = none) {panel : PatchPanelRow}
    (hpanel : panel ∈ db.patchPanels) (htraining : panel.split.isTraining = true)
    (hkey : panel.panelKey = some row.panelKey) {case : PatchCaseRow} (hcase : case ∈ db.patchCases)
    (hid : case.caseId = some row.caseId) {reservation : SplitReservationRow}
    (hreservation : reservation ∈ db.splitReservations) : reservation.reserves case = false := by
  have hfind : db.patchPanels.find? (fun panel => panel.panelKey = some row.panelKey) =
      some panel := by
    cases hfound : db.patchPanels.find? (fun panel => panel.panelKey = some row.panelKey) with
    | none => exact absurd hkey (by simpa using List.find?_eq_none.mp hfound panel hpanel)
    | some first =>
        have hfirst : first.panelKey = some row.panelKey := by
          simpa using List.find?_some hfound
        rw [hkeyed.panel_eq (List.mem_of_find?_eq_some hfound) hpanel hfirst hkey]
  unfold guardDevelopmentMembership at hguard
  rw [hfind] at hguard
  simp only [Option.map_some, Option.any_some, htraining, Bool.true_and] at hguard
  split at hguard
  next => cases hguard
  next hfree =>
    rw [Bool.not_eq_true, List.any_eq_false] at hfree
    have hcaseFree := hfree case hcase
    simp only [hid, decide_true, Bool.true_and, List.any_eq_true, not_exists, not_and,
      Bool.not_eq_true] at hcaseFree
    exact hcaseFree reservation hreservation

/-- A statement that succeeds keeps the split isolated unless it reserves a
case that is already in use. -/
theorem PanelEffect.isolated_iff (h : PanelEffect db statement db') (hkeyed : db.Keyed)
    (hisolated : db.Isolated) : db'.Isolated ↔ KeepsIsolation db statement := by
  cases h with
  | @panels _ rows hfits =>
      refine iff_of_true ?_ trivial
      rintro case hcase ⟨panel, hpanel, htraining, row, hrow, hkey, hid⟩
      have hstored := (hkeyed.members row hrow).1
      rcases List.mem_append.mp hpanel with hpanel | hpanel
      · exact hisolated case hcase ⟨panel, hpanel, htraining, row, hrow, hkey, hid⟩
      · exact absurd hkey (panelKey_ne_of_fits hfits hpanel hstored)
  | @marked columns values selects hpasses =>
      refine iff_of_true ?_ trivial
      rintro case hcase ⟨panel', hpanel', htraining, row, hrow, hkey, hid⟩
      obtain ⟨panel, hpanel, rfl⟩ := List.mem_map.mp hpanel'
      obtain ⟨hkey', hsplit, _⟩ := marked_sameCore hpasses panel hpanel
      exact hisolated case hcase
        ⟨panel, hpanel, hsplit ▸ htraining, row, hrow, hkey'.symm.trans hkey, hid⟩
  | @cases _ rows hfits =>
      refine iff_of_true ?_ trivial
      rintro case hcase ⟨panel, hpanel, htraining, row, hrow, hkey, hid⟩
      have hstored := (hkeyed.members row hrow).2
      rcases List.mem_append.mp hcase with hcase | hcase
      · exact hisolated case hcase ⟨panel, hpanel, htraining, row, hrow, hkey, hid⟩
      · exact absurd hid (caseId_ne_of_fits hfits hcase hstored)
  | @members _ rows hfits hresolves =>
      refine iff_of_true ?_ trivial
      rintro case hcase ⟨panel, hpanel, htraining, row, hrow, hkey, hid⟩ reservation hreservation
      rcases List.mem_append.mp hrow with hrow | hrow
      · exact hisolated case hcase ⟨panel, hpanel, htraining, row, hrow, hkey, hid⟩
          reservation hreservation
      · exact guard_reserves hkeyed (hfits.beforeInsert row hrow) hpanel htraining hkey hcase hid
          hreservation
  | @reservations _ rows hfits =>
      constructor
      · intro hlater case hcase htrains reservation hreservation
        exact hlater case hcase htrains reservation (List.mem_append_right _ hreservation)
      · intro hkeeps case hcase htrains reservation hreservation
        rcases List.mem_append.mp hreservation with hreservation | hreservation
        · exact hisolated case hcase htrains reservation hreservation
        · exact hkeeps case hcase htrains reservation hreservation
  | elsewhere => exact iff_of_true hisolated trivial
  | @kept _ hinsert =>
      refine iff_of_true hisolated ?_
      cases statement with
      | insertReservations => cases hinsert
      | _ => trivial

end Statement

/-! ## Runs -/

theorem PanelDb.empty_keyed (others : ForeignKeys) : (PanelDb.empty others).Keyed where
  panels := List.Pairwise.nil
  cases := List.Pairwise.nil
  members := by
    intro row hrow
    cases hrow

theorem PanelDb.empty_isolated (others : ForeignKeys) : (PanelDb.empty others).Isolated := by
  intro case hcase
  cases hcase

section Run

variable {db : PanelDb} {statements : List PanelStatement}

theorem run_keyed (haccepts : Admits PanelDb.call PanelDb.Accepts db statements)
    (hkeyed : db.Keyed) : (run PanelDb.call db statements).Keyed :=
  haccepts.invariant PanelDb.Keyed (fun _ _ h haccept => haccept.effect.keyed h) hkeyed

/-- By induction over the statements, each of which reserves no case in use and admits no
reserved one. -/
theorem run_isolated (haccepts : Admits PanelDb.call PanelDb.Accepts db statements)
    (hkeeps : Admits PanelDb.call KeepsIsolation db statements) (hkeyed : db.Keyed)
    (hisolated : db.Isolated) : (run PanelDb.call db statements).Isolated := by
  induction statements generalizing db with
  | nil => exact hisolated
  | cons statement rest ih =>
      obtain ⟨haccept, haccepts⟩ := haccepts
      obtain ⟨hkeep, hkeeps⟩ := hkeeps
      exact ih haccepts hkeeps (haccept.effect.keyed hkeyed)
        ((haccept.effect.isolated_iff hkeyed hisolated).mpr hkeep)

end Run

/-- In a run of statements that succeed, from empty tables, the split is
isolated at every point if and only if no statement reserves a case that a
development or training panel holds when it runs. -/
theorem run_isolated_iff {others : ForeignKeys} {statements : List PanelStatement}
    (haccepts : Admits PanelDb.call PanelDb.Accepts (.empty others) statements) :
    (∀ first last, statements = first ++ last →
      (run PanelDb.call (.empty others) first).Isolated) ↔
    Admits PanelDb.call KeepsIsolation (.empty others) statements := by
  constructor
  · intro hisolated
    rw [admits_iff_forall]
    intro first statement last hsplit
    subst hsplit
    have haccept := (admits_iff_forall.mp haccepts) first statement last rfl
    have hkeyed := run_keyed haccepts.append.1 (PanelDb.empty_keyed others)
    have hbefore := hisolated first (statement :: last) rfl
    have hafter := hisolated (first ++ [statement]) last (by simp)
    rw [run_append] at hafter
    exact (haccept.effect.isolated_iff hkeyed hbefore).mp hafter
  · intro hkeeps first last hsplit
    subst hsplit
    exact run_isolated haccepts.append.1 hkeeps.append.1 (PanelDb.empty_keyed others)
      (PanelDb.empty_isolated others)

def familyReservation : SplitReservationRow where
  reservationKey := some "family:family"
  assessmentPanelKey := "assess"
  reservedAt := "2026-09-21T00:00:00Z"

/-- A family is reserved before one of its cases joins an assessment panel. -/
theorem run_isolated_iff_small :
    (∀ first last, smallCohort ++ [.insertReservations .abort [familyReservation],
        .insertMemberships .abort [smallMember "assess"]] = first ++ last →
      (run PanelDb.call (.empty smallKeys) first).Isolated) ↔
    Admits PanelDb.call KeepsIsolation (.empty smallKeys)
      (smallCohort ++ [.insertReservations .abort [familyReservation],
        .insertMemberships .abort [smallMember "assess"]]) :=
  run_isolated_iff ⟨rfl, rfl, rfl, rfl, trivial⟩

/-- The case joins the development panel, and its family is reserved afterwards. -/
def lateReservation : List PanelStatement :=
  smallCohort ++ [.insertMemberships .abort [smallMember "dev"],
    .insertReservations .abort [familyReservation]]

/-- A family that a development panel holds can still be reserved: the trigger guards
memberships only. -/
theorem reservation_after_membership :
    ¬ ∀ others statements, Admits PanelDb.call PanelDb.Accepts (.empty others) statements →
      ∀ first last, statements = first ++ last →
        (run PanelDb.call (.empty others) first).Isolated := by
  intro h
  have haccepts : Admits PanelDb.call PanelDb.Accepts (.empty smallKeys) lateReservation :=
    ⟨rfl, rfl, rfl, rfl, trivial⟩
  have hisolated := h smallKeys lateReservation haccepts lateReservation [] (List.append_nil _).symm
  have hfree := hisolated smallCase (List.mem_singleton.mpr rfl)
    ⟨smallPanel "dev" .development, List.mem_cons_self, rfl, smallMember "dev",
      List.mem_singleton.mpr rfl, rfl, rfl⟩
    familyReservation (List.mem_singleton.mpr rfl)
  cases hfree

end VerifierCI
