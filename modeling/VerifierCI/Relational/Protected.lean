import Mathlib.Data.List.Pairwise
import VerifierCI.Relational.Guards

/-! # Rows that triggers protect

Triggers may refuse to delete some rows, and to change them in some ways. Such
a row outlives every statement, REPLACE included, and unique keys stay unique.
-/

namespace Relational.Guards

universe uRow

variable {ρ : Type uRow} (g : Guards ρ)

/-- The rows a new row takes the keys of. -/
def displaced (new : ρ) (rows : List ρ) : List ρ :=
  rows.filter (g.clashes new)

def spared (new : ρ) (rows : List ρ) : List ρ :=
  rows.filter fun row => !g.clashes new row

theorem spared_length_le (new : ρ) (rows : List ρ) : (g.spared new rows).length ≤ rows.length :=
  List.length_filter_le ..

/-- UPDATE OR REPLACE: the rows a new row clashes with are deleted before it is written. -/
def replaceFrom (selects : ρ → Bool) (set : ρ → ρ) (visited : List ρ) :
    List ρ → Except String (List ρ)
  | [] => .ok visited
  | row :: rest =>
      if selects row then
        match g.beforeUpdate row (set row) with
        | some message => .error message
        | none =>
            if !g.valid (set row) then .error "CHECK constraint failed"
            else
              match (g.displaced (set row) (visited ++ rest)).findSome? g.beforeDelete with
              | some message => .error message
              | none =>
                  replaceFrom selects set (g.spared (set row) visited ++ [set row])
                    (g.spared (set row) rest)
      else replaceFrom selects set (visited ++ [row]) rest
termination_by rest => rest.length
decreasing_by
  · exact Nat.lt_succ_of_le (g.spared_length_le (set row) rest)
  · exact Nat.lt_succ_self rest.length

/-- UPDATE, or UPDATE OR REPLACE. -/
def updateOr (onConflict : OnConflict) (selects : ρ → Bool) (set : ρ → ρ) (rows : List ρ) :
    Except String (List ρ) :=
  match onConflict with
  | .abort => g.update selects set rows
  | .replace => g.replaceFrom selects set [] rows

/-- Rows of a kind cannot be deleted. -/
def Protects (kind : ρ → Prop) : Prop :=
  ∀ row, kind row → (g.beforeDelete row).isSome = true

/-- What an update makes of a row of the kind is again of the kind. -/
structure Carries (kind : ρ → Prop) (becomes : ρ → ρ → Prop) (set : ρ → ρ) : Prop where
  refl : ∀ row, becomes row row
  update : ∀ row, kind row → g.beforeUpdate row (set row) = none →
    kind (set row) ∧ becomes row (set row)

/-- Every row of the kind has a successor. -/
def Outlives (kind : ρ → Prop) (becomes : ρ → ρ → Prop) (rows rows' : List ρ) : Prop :=
  ∀ row ∈ rows, kind row → ∃ row' ∈ rows', kind row' ∧ becomes row row'

section Protected

variable {g} {kind : ρ → Prop} {becomes : ρ → ρ → Prop} {rows rows' news : List ρ}
  {selects : ρ → Bool} {set : ρ → ρ} {onConflict : OnConflict}

/-- No statement that succeeds deletes a protected row. -/
theorem Protects.not_selected (hg : g.Protects kind)
    (hpasses : (rows.filter selects).findSome? g.beforeDelete = none) {row : ρ}
    (hrow : row ∈ rows) (hkind : kind row) : selects row = false := by
  cases hselects : selects row with
  | false => rfl
  | true =>
      have hnone := List.findSome?_eq_none_iff.mp hpasses row (List.mem_filter.mpr ⟨hrow, hselects⟩)
      have hraises := hg row hkind
      rw [hnone] at hraises
      cases hraises

theorem Protects.delete_mem (hg : g.Protects kind)
    (h : g.delete selects rows = .ok rows') {row : ρ} (hrow : row ∈ rows) (hkind : kind row) :
    row ∈ rows' := by
  unfold Guards.delete at h
  split at h
  next => cases h
  next hnone =>
    obtain rfl := Except.ok.inj h
    rw [List.mem_filter, hg.not_selected hnone hrow hkind]
    exact ⟨hrow, rfl⟩

/-- REPLACE deletes the rows it clashes with, and a protected one stops it. So a protected row
is still there after any insertion that succeeds. -/
theorem Protects.insertRow_mem (hg : g.Protects kind) {new : ρ}
    (h : g.insertRow onConflict rows new = .ok rows') {row : ρ} (hrow : row ∈ rows)
    (hkind : kind row) : row ∈ rows' := by
  unfold insertRow at h
  split at h
  next => cases h
  next =>
    split at h
    next => cases h
    next =>
      split at h
      next =>
        obtain rfl := Except.ok.inj h
        exact List.mem_append_left _ hrow
      next =>
        cases onConflict with
        | abort => cases h
        | replace =>
            cases hdelete : g.delete (g.clashes new) rows with
            | error message =>
                rw [hdelete] at h
                cases h
            | ok kept =>
                rw [hdelete] at h
                obtain rfl := Except.ok.inj h
                exact List.mem_append_left _ (hg.delete_mem hdelete hrow hkind)

/-- A protected row stays as it is when others are inserted. -/
theorem Protects.insert_mem (hg : g.Protects kind)
    (h : g.insert onConflict rows news = .ok rows') {row : ρ} (hrow : row ∈ rows)
    (hkind : kind row) : row ∈ rows' := by
  induction news generalizing rows with
  | nil =>
      obtain rfl := Except.ok.inj h
      exact hrow
  | cons new rest ih =>
      unfold insert at h
      rw [List.foldlM_cons] at h
      cases hfirst : g.insertRow onConflict rows new with
      | error message =>
          rw [hfirst] at h
          cases h
      | ok middle =>
          rw [hfirst] at h
          exact ih h (hg.insertRow_mem hfirst hrow hkind)

theorem Carries.update_ok (hset : g.Carries kind becomes set)
    (h : g.update selects set rows = .ok rows') : Outlives kind becomes rows rows' := by
  obtain ⟨hpasses, rfl⟩ := Guards.update_ok h
  intro row hrow hkind
  refine ⟨_, List.mem_map_of_mem hrow, ?_⟩
  by_cases hselects : selects row = true
  · rw [if_pos hselects]
    exact hset.update row hkind (hpasses row hrow hselects)
  · rw [if_neg hselects]
    exact ⟨hkind, hset.refl row⟩

/-- A protected row that has been visited stays, and one still to come gets its successor. By
the recursion over the rows to come, with those visited as its accumulator. -/
theorem Protects.replaceFrom_ok (hg : g.Protects kind) (hset : g.Carries kind becomes set)
    {visited rest : List ρ} (h : g.replaceFrom selects set visited rest = .ok rows') :
    (∀ row ∈ visited, kind row → row ∈ rows') ∧ Outlives kind becomes rest rows' := by
  induction visited, rest using replaceFrom.induct g selects set with
  | case1 visited =>
      rw [replaceFrom] at h
      obtain rfl := Except.ok.inj h
      exact ⟨fun row hrow _ => hrow, fun row hrow => absurd hrow List.not_mem_nil⟩
  | case2 visited row rest hselects message hraises =>
      rw [replaceFrom, if_pos hselects, hraises] at h
      cases h
  | case3 visited row rest hselects hpasses hvalid =>
      rw [replaceFrom, if_pos hselects, hpasses] at h
      rw [if_pos hvalid] at h
      cases h
  | case4 visited row rest hselects hpasses hvalid message hraises =>
      rw [replaceFrom, if_pos hselects, hpasses] at h
      rw [if_neg hvalid, hraises] at h
      cases h
  | case5 visited row rest hselects hpasses hvalid hdeletes ih =>
      rw [replaceFrom, if_pos hselects, hpasses] at h
      rw [if_neg hvalid, hdeletes] at h
      obtain ⟨hvisited, hrest⟩ := ih h
      -- what the new row clashes with is not protected, or the deletion had been refused
      have hkept : ∀ other ∈ visited ++ rest, kind other →
          (!g.clashes (set row) other) = true := by
        intro other hother hkind
        rw [hg.not_selected hdeletes hother hkind]
        rfl
      refine ⟨?_, ?_⟩
      · intro other hother hkind
        refine hvisited other (List.mem_append_left _ (List.mem_filter.mpr ⟨hother, ?_⟩)) hkind
        exact hkept other (List.mem_append_left _ hother) hkind
      · intro other hother hkind
        rcases List.mem_cons.mp hother with rfl | hother
        · obtain ⟨hnew, hbecomes⟩ := hset.update other hkind hpasses
          exact ⟨set other, hvisited _ (List.mem_append_right _ List.mem_cons_self) hnew, hnew,
            hbecomes⟩
        · refine hrest other (List.mem_filter.mpr ⟨hother, ?_⟩) hkind
          exact hkept other (List.mem_append_right _ hother) hkind
  | case6 visited row rest hselects ih =>
      rw [replaceFrom, if_neg hselects] at h
      obtain ⟨hvisited, hrest⟩ := ih h
      refine ⟨fun other hother => hvisited other (List.mem_append_left _ hother), ?_⟩
      intro other hother hkind
      rcases List.mem_cons.mp hother with rfl | hother
      · exact ⟨other, hvisited other (List.mem_append_right _ List.mem_cons_self) hkind, hkind,
          hset.refl other⟩
      · exact hrest other hother hkind

/-- Whichever resolution of conflicts is asked for, every protected row has a successor. -/
theorem Protects.updateOr_ok (hg : g.Protects kind) (hset : g.Carries kind becomes set)
    (h : g.updateOr onConflict selects set rows = .ok rows') :
    Outlives kind becomes rows rows' := by
  cases onConflict with
  | abort => exact hset.update_ok h
  | replace => exact (hg.replaceFrom_ok hset h).2

theorem Outlives.of_mem (hrefl : ∀ row, becomes row row)
    (h : ∀ row ∈ rows, kind row → row ∈ rows') : Outlives kind becomes rows rows' :=
  fun row hrow hkind => ⟨row, h row hrow hkind, hkind, hrefl row⟩

theorem Outlives.trans {rows'' : List ρ} (first : Outlives kind becomes rows rows')
    (second : Outlives kind becomes rows' rows'')
    (htrans : ∀ a b c, becomes a b → becomes b c → becomes a c) :
    Outlives kind becomes rows rows'' := by
  intro row hrow hkind
  obtain ⟨row', hrow', hkind', hbecomes⟩ := first row hrow hkind
  obtain ⟨row'', hrow'', hkind'', hbecomes'⟩ := second row' hrow' hkind'
  exact ⟨row'', hrow'', hkind'', htrans row row' row'' hbecomes hbecomes'⟩

end Protected

/-! ## Unique keys -/

section Keys

variable {g} {rows rows' news : List ρ} {selects : ρ → Bool} {set : ρ → ρ}
  {onConflict : OnConflict}

theorem Unique.append_singleton (h : g.Unique rows) {row : ρ}
    (hkeys : ∀ other ∈ rows, g.clashes row other = false) : g.Unique (rows ++ [row]) := by
  refine List.pairwise_append.mpr ⟨h, List.pairwise_singleton _ _, ?_⟩
  intro other hother last hlast
  obtain rfl := List.mem_singleton.mp hlast
  exact hkeys other hother

theorem Unique.delete_ok (h : g.Unique rows) (hdelete : g.delete selects rows = .ok rows') :
    g.Unique rows' := by
  obtain ⟨_, rfl⟩ := Guards.delete_ok hdelete
  exact h.filter _

/-- A row that is inserted clashes with none: either there was none, or it was deleted first.
The rows it is added to were free of clashes among themselves, and a deletion leaves them so. -/
theorem Unique.insertRow_ok (h : g.Unique rows) {row : ρ}
    (hinsert : g.insertRow onConflict rows row = .ok rows') : g.Unique rows' := by
  unfold insertRow at hinsert
  split at hinsert
  next => cases hinsert
  next =>
    split at hinsert
    next => cases hinsert
    next =>
      split at hinsert
      next hkeys =>
        obtain rfl := Except.ok.inj hinsert
        exact h.append_singleton (by simpa using hkeys)
      next =>
        cases onConflict with
        | abort => cases hinsert
        | replace =>
            cases hdelete : g.delete (g.clashes row) rows with
            | error message =>
                rw [hdelete] at hinsert
                cases hinsert
            | ok kept =>
                rw [hdelete] at hinsert
                obtain rfl := Except.ok.inj hinsert
                apply (h.delete_ok hdelete).append_singleton
                obtain ⟨_, rfl⟩ := Guards.delete_ok hdelete
                intro other hother
                simpa using (List.mem_filter.mp hother).2

theorem Unique.insert_ok (h : g.Unique rows) (hinsert : g.insert onConflict rows news = .ok rows') :
    g.Unique rows' := by
  induction news generalizing rows with
  | nil =>
      obtain rfl := Except.ok.inj hinsert
      exact h
  | cons row rest ih =>
      unfold insert at hinsert
      rw [List.foldlM_cons] at hinsert
      cases hfirst : g.insertRow onConflict rows row with
      | error message =>
          rw [hfirst] at hinsert
          cases hinsert
      | ok middle =>
          rw [hfirst] at hinsert
          exact ih (h.insertRow_ok hfirst) hinsert

/-- A row among others takes its place if it clashes with none of them. -/
theorem Unique.replace_row (hsymm : ∀ a b, g.clashes a b = g.clashes b a)
    {visited rest : List ρ} {row : ρ} (h : g.Unique (visited ++ rest))
    (hkeys : ∀ other ∈ visited ++ rest, g.clashes row other = false) :
    g.Unique ((visited ++ [row]) ++ rest) := by
  obtain ⟨hvisited, hrest, hbetween⟩ := List.pairwise_append.mp h
  have hfirst : g.Unique (visited ++ [row]) :=
    Unique.append_singleton hvisited fun other hother => hkeys other (List.mem_append_left _ hother)
  refine List.pairwise_append.mpr ⟨hfirst, hrest, ?_⟩
  intro other hother later hlater
  rcases List.mem_append.mp hother with hother | hother
  · exact hbetween other hother later hlater
  · obtain rfl := List.mem_singleton.mp hother
    rw [hsymm]
    exact hkeys later (List.mem_append_right _ hlater)

/-- By induction on the rows still to come, against those that were visited. A row that is
rewritten is checked against all others, on both sides of it. -/
theorem Unique.updateFrom_ok (hsymm : ∀ a b, g.clashes a b = g.clashes b a)
    {visited : List ρ} (h : g.Unique (visited ++ rows))
    (hupdate : g.updateFrom selects set visited rows = .ok rows') : g.Unique rows' := by
  induction rows generalizing visited with
  | nil =>
      obtain rfl := Except.ok.inj hupdate
      simpa using h
  | cons row rest ih =>
      unfold updateFrom at hupdate
      split at hupdate
      next =>
        split at hupdate
        next => cases hupdate
        next =>
          split at hupdate
          next => cases hupdate
          next =>
            split at hupdate
            next => cases hupdate
            next hkeys =>
              -- The new row was compared with all others, so it may take the place of the old one.
              have hfree : ∀ other ∈ visited ++ rest, g.clashes (set row) other = false := by
                intro other hother
                cases hclash : g.clashes (set row) other with
                | false => rfl
                | true => exact absurd (List.any_eq_true.mpr ⟨other, hother, hclash⟩) hkeys
              refine ih (Unique.replace_row hsymm ?_ hfree) hupdate
              exact h.sublist ((List.sublist_cons_self row rest).append_left visited)
      next =>
        refine ih ?_ hupdate
        simpa using h

/-- The rows a new row clashes with are gone, among those visited and among those to come. So
the new row can be put in, and the update goes on with what is left. -/
theorem Unique.replaceFrom_ok (hsymm : ∀ a b, g.clashes a b = g.clashes b a)
    {visited rest : List ρ} (h : g.Unique (visited ++ rest))
    (hreplace : g.replaceFrom selects set visited rest = .ok rows') : g.Unique rows' := by
  induction visited, rest using replaceFrom.induct g selects set with
  | case1 visited =>
      rw [replaceFrom] at hreplace
      obtain rfl := Except.ok.inj hreplace
      simpa using h
  | case2 visited row rest hselects message hraises =>
      rw [replaceFrom, if_pos hselects, hraises] at hreplace
      cases hreplace
  | case3 visited row rest hselects hpasses hvalid =>
      rw [replaceFrom, if_pos hselects, hpasses] at hreplace
      rw [if_pos hvalid] at hreplace
      cases hreplace
  | case4 visited row rest hselects hpasses hvalid message hraises =>
      rw [replaceFrom, if_pos hselects, hpasses] at hreplace
      rw [if_neg hvalid, hraises] at hreplace
      cases hreplace
  | case5 visited row rest hselects hpasses hvalid hdeletes ih =>
      rw [replaceFrom, if_pos hselects, hpasses] at hreplace
      rw [if_neg hvalid, hdeletes] at hreplace
      refine ih (Unique.replace_row hsymm ?_ ?_) hreplace
      · rw [spared, spared, ← List.filter_append]
        exact (h.sublist ((List.sublist_cons_self row rest).append_left visited)).filter _
      · intro other hother
        rw [spared, spared, ← List.filter_append] at hother
        simpa using (List.mem_filter.mp hother).2
  | case6 visited row rest hselects ih =>
      rw [replaceFrom, if_neg hselects] at hreplace
      refine ih ?_ hreplace
      simpa using h

theorem Unique.updateOr_ok (hsymm : ∀ a b, g.clashes a b = g.clashes b a) (h : g.Unique rows)
    (hupdate : g.updateOr onConflict selects set rows = .ok rows') : g.Unique rows' := by
  -- no row has been visited before the first
  have hnone : g.Unique ([] ++ rows) := by rwa [List.nil_append]
  cases onConflict with
  | abort => exact Unique.updateFrom_ok hsymm hnone hupdate
  | replace => exact Unique.replaceFrom_ok hsymm hnone hupdate

end Keys

end Relational.Guards
