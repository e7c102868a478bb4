import VerifierCI.Storage.Panels

/-! # Sealed cohorts

Once a panel is sealed its row can only be retired: the update triggers let no
other column pass and nothing is ever deleted. Its memberships are guarded
against changes and deletions, not against additions, so the cohort is frozen
exactly as long as nobody adds a member to a sealed panel.
-/

namespace VerifierCI

open Relational Transition

/-- Every column but `retired_at`. -/
def PatchPanelRow.unretired (panel : PatchPanelRow) : PatchPanelRow :=
  { panel with retiredAt := none }

/-- The sealed panels of `db` are the same in `db'`, and so are their members.
A row keeps its place in the table. -/
structure Frozen (db db' : PanelDb) : Prop where
  panel : ∀ (i : Nat) panel, db.patchPanels[i]? = some panel → panel.sealedAt.isSome = true →
    ∃ panel', db'.patchPanels[i]? = some panel' ∧ panel'.unretired = panel.unretired
  members : ∀ panel ∈ db.patchPanels, panel.sealedAt.isSome = true →
    ∀ row, panel.panelKey = some row.panelKey →
      (row ∈ db'.panelMemberships ↔ row ∈ db.panelMemberships)

/-- The statement adds no member to a sealed panel. -/
def KeepsSealed (db : PanelDb) : PanelStatement → Prop
  | .insertMemberships _ rows => ∀ row ∈ rows, ∀ panel ∈ db.patchPanels,
      panel.panelKey = some row.panelKey → panel.sealedAt = none
  | _ => True

/-! ## One statement -/

section Statement

variable {db db' db'' : PanelDb} {statement : PanelStatement}

/-- An update that passes the triggers leaves a sealed row all but its retirement. -/
theorem set_unretired {columns : List PanelColumn} {values row : PatchPanelRow}
    (hpasses : panelsBeforeUpdate columns row (row.set columns values) = none)
    (hsealed : row.sealedAt.isSome = true) :
    (row.set columns values).unretired = row.unretired := by
  obtain ⟨hcore, hupdate⟩ := panelsBeforeUpdate_eq_none hpasses
  simp only [sealedUpdate, hsealed, Bool.true_and, Bool.or_eq_false_iff, bne_eq_false_iff_eq]
    at hupdate
  obtain ⟨⟨⟨_, hsealedAt⟩, hexposedAt⟩, hdevelopmentUsedAt⟩ := hupdate
  rw [set_of_not_core hcore row values, PatchPanelRow.unretired, hsealedAt, hexposedAt,
    hdevelopmentUsedAt]
  rfl

theorem sealedAt_of_unretired {panel panel' : PatchPanelRow}
    (h : panel'.unretired = panel.unretired) : panel'.sealedAt = panel.sealedAt := by
  change panel'.unretired.sealedAt = panel.unretired.sealedAt
  rw [h]

theorem panelKey_of_unretired {panel panel' : PatchPanelRow}
    (h : panel'.unretired = panel.unretired) : panel'.panelKey = panel.panelKey := by
  change panel'.unretired.panelKey = panel.unretired.panelKey
  rw [h]

theorem Frozen.refl (db : PanelDb) : Frozen db db where
  panel := fun _ panel hpanel _ => ⟨panel, hpanel, rfl⟩
  members := fun _ _ _ _ _ => Iff.rfl

/-- Freezing goes on: what was frozen in between is frozen now. -/
theorem Frozen.trans (first : Frozen db db') (second : Frozen db' db'') : Frozen db db'' where
  panel := by
    intro i panel hpanel hsealed
    obtain ⟨panel', hpanel', hsame⟩ := first.panel i panel hpanel hsealed
    have hsealedAt := sealedAt_of_unretired hsame
    obtain ⟨panel'', hpanel'', hsame'⟩ := second.panel i panel' hpanel' (hsealedAt ▸ hsealed)
    exact ⟨panel'', hpanel'', hsame'.trans hsame⟩
  members := by
    intro panel hpanel hsealed row hkey
    obtain ⟨i, hi⟩ := List.mem_iff_getElem?.mp hpanel
    obtain ⟨panel', hpanel', hsame⟩ := first.panel i panel hi hsealed
    have hsealedAt := sealedAt_of_unretired hsame
    have hkey' := panelKey_of_unretired hsame
    have hlater := second.members panel' (List.mem_of_getElem? hpanel') (hsealedAt ▸ hsealed) row
      (hkey'.trans hkey)
    exact hlater.trans (first.members panel hpanel hsealed row hkey)

theorem Frozen.of_members_eq (hpanels : db'.patchPanels = db.patchPanels)
    (hmembers : db'.panelMemberships = db.panelMemberships) : Frozen db db' where
  panel := fun _ panel hpanel _ => ⟨panel, hpanels ▸ hpanel, rfl⟩
  members := fun _ _ _ row _ => by rw [hmembers]

/-- A statement that succeeds freezes the sealed panels unless it adds a member
to one of them. -/
theorem PanelEffect.frozen_iff (h : PanelEffect db statement db') :
    Frozen db db' ↔ KeepsSealed db statement := by
  cases h with
  | @panels onConflict rows hfits =>
      refine iff_of_true ⟨?_, fun _ _ _ _ _ => Iff.rfl⟩ trivial
      intro i panel hpanel _
      obtain ⟨hlt, _⟩ := List.getElem?_eq_some_iff.mp hpanel
      exact ⟨panel, (List.getElem?_append_left hlt).trans hpanel, rfl⟩
  | @marked columns values selects hpasses =>
      refine iff_of_true ⟨?_, fun _ _ _ _ _ => Iff.rfl⟩ trivial
      intro i panel hpanel hsealed
      refine ⟨_, by rw [List.getElem?_map, hpanel, Option.map_some], ?_⟩
      split
      next hselects =>
        exact set_unretired (hpasses panel (List.mem_of_getElem? hpanel) hselects) hsealed
      next => rfl
  | cases => exact iff_of_true (.of_members_eq rfl rfl) trivial
  | reservations => exact iff_of_true (.of_members_eq rfl rfl) trivial
  | elsewhere => exact iff_of_true (.of_members_eq rfl rfl) trivial
  | @kept _ hinsert =>
      refine iff_of_true (.refl db) ?_
      cases statement with
      | insertMemberships => cases hinsert
      | _ => trivial
  | @members onConflict rows hfits hresolves =>
      constructor
      · intro hfrozen row hrow panel hpanel hkey
        by_contra hopen
        have hsealed : panel.sealedAt.isSome = true := Option.isSome_iff_ne_none.mpr hopen
        have hmem := (hfrozen.members panel hpanel hsealed row hkey).mp
          (List.mem_append_right _ hrow)
        -- a stored row clashes with itself, so a new member was not stored before
        have hclash := hfits.not_clashes row hrow row hmem
        simp [membershipGuards] at hclash
      · intro hkeeps
        refine ⟨fun _ panel hpanel _ => ⟨panel, hpanel, rfl⟩, ?_⟩
        intro panel hpanel hsealed row hkey
        refine ⟨fun hrow => ?_, fun hrow => List.mem_append_left _ hrow⟩
        rcases List.mem_append.mp hrow with hrow | hrow
        · exact hrow
        · rw [hkeeps row hrow panel hpanel hkey] at hsealed
          cases hsealed

end Statement

/-! ## Runs -/

section Run

variable {db : PanelDb} {statements : List PanelStatement}

/-- In a run that adds no member to a sealed panel every cohort stays as it
was sealed. -/
theorem run_frozen (haccepts : Admits PanelDb.call PanelDb.Accepts db statements)
    (hkeeps : Admits PanelDb.call KeepsSealed db statements) :
    Frozen db (run PanelDb.call db statements) := by
  induction statements generalizing db with
  | nil => exact .refl db
  | cons statement rest ih =>
      obtain ⟨haccept, haccepts⟩ := haccepts
      obtain ⟨hkeep, hkeeps⟩ := hkeeps
      exact (haccept.effect.frozen_iff.mpr hkeep).trans (ih haccepts hkeeps)

end Run

/-- In a run of statements that succeed, the cohorts sealed at any point stay
the same from there on if and only if no statement adds a member to a panel
that is sealed when it runs. -/
theorem run_frozen_iff {db : PanelDb} {statements : List PanelStatement}
    (haccepts : Admits PanelDb.call PanelDb.Accepts db statements) :
    (∀ first middle last, statements = first ++ middle ++ last →
      Frozen (run PanelDb.call db first) (run PanelDb.call db (first ++ middle))) ↔
    Admits PanelDb.call KeepsSealed db statements := by
  constructor
  · intro hfrozen
    rw [admits_iff_forall]
    intro first statement last hsplit
    subst hsplit
    have haccept := (admits_iff_forall.mp haccepts) first statement last rfl
    have hstep := hfrozen first [statement] last (by simp)
    rw [run_append] at hstep
    exact haccept.effect.frozen_iff.mp hstep
  · intro hkeeps first middle last hsplit
    subst hsplit
    rw [run_append]
    exact run_frozen haccepts.append.1.append.2 hkeeps.append.1.append.2

/-- `SET sealed_at = '2026-09-22T00:00:00Z'` for one panel. -/
def sealPanel (panelKey : String) : PanelStatement :=
  .updatePanels [.sealedAt] (fun row => { row with sealedAt := some "2026-09-22T00:00:00Z" })
    fun row => row.panelKey = some panelKey

/-- The cohort is sealed, and a member is added behind it. -/
theorem run_frozen_iff_small :
    (∀ first middle last, smallCohort ++ [.insertMemberships .abort [smallMember "dev"],
        sealPanel "dev"] = first ++ middle ++ last →
      Frozen (run PanelDb.call (.empty smallKeys) first)
        (run PanelDb.call (.empty smallKeys) (first ++ middle))) ↔
    Admits PanelDb.call KeepsSealed (.empty smallKeys)
      (smallCohort ++ [.insertMemberships .abort [smallMember "dev"], sealPanel "dev"]) :=
  run_frozen_iff ⟨rfl, rfl, rfl, rfl, trivial⟩

/-- A sealed panel still takes members, as no trigger looks at the seal when one is inserted. -/
theorem member_after_sealing :
    ¬ ∀ db statements, Admits PanelDb.call PanelDb.Accepts db statements →
      ∀ first middle last, statements = first ++ middle ++ last →
        Frozen (run PanelDb.call db first) (run PanelDb.call db (first ++ middle)) := by
  intro h
  have hfrozen := h (.empty smallKeys)
    (smallCohort ++ [sealPanel "dev", .insertMemberships .abort [smallMember "dev"]])
    ⟨rfl, rfl, rfl, rfl, trivial⟩ (smallCohort ++ [sealPanel "dev"])
    [.insertMemberships .abort [smallMember "dev"]] [] rfl
  have hmember := hfrozen.members
    { smallPanel "dev" .development with sealedAt := some "2026-09-22T00:00:00Z" }
    List.mem_cons_self rfl (smallMember "dev") rfl
  have hstored := hmember.mp (List.mem_singleton.mpr rfl)
  cases hstored

end VerifierCI
