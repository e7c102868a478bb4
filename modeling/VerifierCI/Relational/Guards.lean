import Mathlib.Data.List.Basic

/-! # Statements on a guarded table

SQLite runs a statement row by row: the BEFORE triggers come first, then the
row's own constraints, then its keys, and the first row that is refused undoes
the whole statement. REPLACE deletes the rows it clashes with, and with
recursive triggers their delete triggers fire like those of a DELETE.
-/

namespace Relational

universe uRow

/-- What guards the rows of one table. A trigger that raises is its message. -/
structure Guards (ρ : Type uRow) where
  beforeInsert : ρ → Option String
  beforeUpdate : ρ → ρ → Option String
  beforeDelete : ρ → Option String
  /-- NOT NULL and CHECK. -/
  valid : ρ → Bool
  /-- PRIMARY KEY and UNIQUE: the two rows cannot both be stored. -/
  clashes : ρ → ρ → Bool

/-- Plain INSERT, or INSERT OR REPLACE. -/
inductive OnConflict where
  | abort
  | replace
deriving DecidableEq, Repr

namespace Guards

variable {ρ : Type uRow} (g : Guards ρ)

def delete (selects : ρ → Bool) (rows : List ρ) : Except String (List ρ) :=
  match (rows.filter selects).findSome? g.beforeDelete with
  | some message => .error message
  | none => .ok (rows.filter fun row => !selects row)

def insertRow (onConflict : OnConflict) (rows : List ρ) (row : ρ) : Except String (List ρ) :=
  match g.beforeInsert row with
  | some message => .error message
  | none =>
      if !g.valid row then .error "CHECK constraint failed"
      else if !rows.any (g.clashes row) then .ok (rows ++ [row])
      else
        match onConflict with
        | .abort => .error "UNIQUE constraint failed"
        | .replace => do
            let rows ← g.delete (g.clashes row) rows
            .ok (rows ++ [row])

def insert (onConflict : OnConflict) (rows news : List ρ) : Except String (List ρ) :=
  news.foldlM (g.insertRow onConflict) rows

/-- UPDATE, with the rows that were visited and those still to come. -/
def updateFrom (selects : ρ → Bool) (set : ρ → ρ) (visited : List ρ) :
    List ρ → Except String (List ρ)
  | [] => .ok visited
  | row :: rest =>
      if selects row then
        match g.beforeUpdate row (set row) with
        | some message => .error message
        | none =>
            if !g.valid (set row) then .error "CHECK constraint failed"
            else if (visited ++ rest).any (g.clashes (set row)) then
              .error "UNIQUE constraint failed"
            else updateFrom selects set (visited ++ [set row]) rest
      else updateFrom selects set (visited ++ [row]) rest

def update (selects : ρ → Bool) (set : ρ → ρ) (rows : List ρ) : Except String (List ρ) :=
  g.updateFrom selects set [] rows

/-! ## What a statement that succeeds has done -/

section Spec

variable {g} {rows rows' : List ρ} {selects : ρ → Bool} {set : ρ → ρ}

theorem delete_ok (h : g.delete selects rows = .ok rows') :
    (∀ row ∈ rows, selects row = true → g.beforeDelete row = none) ∧
      rows' = rows.filter fun row => !selects row := by
  unfold delete at h
  split at h
  next => cases h
  next hnone =>
    obtain rfl := Except.ok.inj h
    refine ⟨?_, rfl⟩
    intro row hrow hselects
    exact List.findSome?_eq_none_iff.mp hnone row (List.mem_filter.mpr ⟨hrow, hselects⟩)

/-- By induction on the rows still to come; the statement goes through if no trigger and no
constraint stops it. -/
theorem updateFrom_ok {visited : List ρ} (h : g.updateFrom selects set visited rows = .ok rows') :
    (∀ row ∈ rows, selects row = true → g.beforeUpdate row (set row) = none) ∧
      rows' = visited ++ rows.map fun row => if selects row then set row else row := by
  induction rows generalizing visited with
  | nil =>
      obtain rfl := Except.ok.inj h
      simp
  -- A selected row passes three checks or the statement fails; only the first is kept here.
  | cons row rest ih =>
      unfold updateFrom at h
      split at h
      next hselects =>
        split at h
        next => cases h
        next hbefore =>
          split at h
          next => cases h
          next =>
            split at h
            next => cases h
            next =>
              obtain ⟨hrest, rfl⟩ := ih h
              refine ⟨?_, by simp [hselects]⟩
              intro other hother hselected
              rcases List.mem_cons.mp hother with rfl | hother
              · exact hbefore
              · exact hrest other hother hselected
      next hselects =>
        obtain ⟨hrest, rfl⟩ := ih h
        refine ⟨?_, by simp [hselects]⟩
        intro other hother hselected
        rcases List.mem_cons.mp hother with rfl | hother
        · exact absurd hselected hselects
        · exact hrest other hother hselected

theorem update_ok (h : g.update selects set rows = .ok rows') :
    (∀ row ∈ rows, selects row = true → g.beforeUpdate row (set row) = none) ∧
      rows' = rows.map fun row => if selects row then set row else row := by
  simpa [update] using updateFrom_ok h

end Spec

/-! ## Tables that delete nothing -/

/-- A trigger refuses to delete any row. -/
def Permanent : Prop :=
  ∀ row, (g.beforeDelete row).isSome = true

/-- A trigger refuses to update any row. -/
def Immutable : Prop :=
  ∀ old new, (g.beforeUpdate old new).isSome = true

/-- No two rows clash. -/
def Unique (rows : List ρ) : Prop :=
  rows.Pairwise fun row later => g.clashes later row = false

/-- The new rows pass the triggers and the constraints, and clash with nothing. -/
inductive Fits : List ρ → List ρ → Prop
  | nil (rows : List ρ) : Fits rows []
  | cons {rows news : List ρ} {row : ρ} (hbefore : g.beforeInsert row = none)
      (hvalid : g.valid row = true) (hkeys : ∀ other ∈ rows, g.clashes row other = false)
      (hnews : Fits (rows ++ [row]) news) : Fits rows (row :: news)

section Permanent

variable {g} {rows rows' news : List ρ} {selects : ρ → Bool} {set : ρ → ρ}
  {onConflict : OnConflict}

/-- Where rows are permanent a DELETE goes through only if it selects none. -/
theorem Permanent.delete_ok (hg : g.Permanent) (h : g.delete selects rows = .ok rows') :
    rows' = rows ∧ ∀ row ∈ rows, selects row = false := by
  obtain ⟨hbefore, rfl⟩ := Guards.delete_ok h
  have hnone : ∀ row ∈ rows, selects row = false := by
    intro row hrow
    cases hselects : selects row with
    | false => rfl
    | true =>
        have hraises := hg row
        rw [hbefore row hrow hselects] at hraises
        cases hraises
  refine ⟨List.filter_eq_self.mpr ?_, hnone⟩
  intro row hrow
  rw [hnone row hrow]
  rfl

/-- Where rows are immutable an UPDATE goes through only if it selects none. -/
theorem Immutable.update_ok (hg : g.Immutable) (h : g.update selects set rows = .ok rows') :
    rows' = rows := by
  obtain ⟨hbefore, rfl⟩ := Guards.update_ok h
  rw [List.map_congr_left (g := id), List.map_id]
  intro row hrow
  split
  next hselects =>
    have hraises := hg row (set row)
    rw [hbefore row hrow hselects] at hraises
    cases hraises
  next => rfl

/-- On a permanent table a REPLACE that succeeds is a plain INSERT. The deletion of a clashing
row is refused, so there was none. -/
theorem Permanent.insertRow_ok (hg : g.Permanent) {row : ρ}
    (h : g.insertRow onConflict rows row = .ok rows') :
    g.beforeInsert row = none ∧ g.valid row = true ∧
      (∀ other ∈ rows, g.clashes row other = false) ∧ rows' = rows ++ [row] := by
  unfold insertRow at h
  split at h
  next => cases h
  next hbefore =>
    split at h
    next => cases h
    next hvalid =>
      have hvalid' : g.valid row = true := by simpa using hvalid
      split at h
      next hkeys =>
        obtain rfl := Except.ok.inj h
        refine ⟨hbefore, hvalid', ?_, rfl⟩
        simpa using hkeys
      next hkeys =>
        cases onConflict with
        | abort => cases h
        | replace =>
            cases hdelete : g.delete (g.clashes row) rows with
            | error message =>
                rw [hdelete] at h
                cases h
            | ok kept =>
                rw [hdelete] at h
                obtain rfl := Except.ok.inj h
                obtain ⟨rfl, hnone⟩ := hg.delete_ok hdelete
                exact ⟨hbefore, hvalid', hnone, rfl⟩

/-- Where rows are permanent nothing can be replaced, so the new rows come behind the others. -/
theorem Permanent.insert_ok (hg : g.Permanent) (h : g.insert onConflict rows news = .ok rows') :
    g.Fits rows news ∧ rows' = rows ++ news := by
  induction news generalizing rows with
  | nil =>
      obtain rfl := Except.ok.inj h
      exact ⟨.nil rows, (List.append_nil rows).symm⟩
  | cons row rest ih =>
      unfold insert at h
      rw [List.foldlM_cons] at h
      cases hfirst : g.insertRow onConflict rows row with
      | error message =>
          rw [hfirst] at h
          cases h
      | ok middle =>
          rw [hfirst] at h
          obtain ⟨hbefore, hvalid, hkeys, rfl⟩ := hg.insertRow_ok hfirst
          obtain ⟨hrest, rfl⟩ := ih h
          exact ⟨.cons hbefore hvalid hkeys hrest, by simp⟩

theorem Fits.beforeInsert (h : g.Fits rows news) : ∀ row ∈ news, g.beforeInsert row = none := by
  induction h with
  | nil => simp
  | cons hbefore _ _ _ ih =>
      intro row hrow
      rcases List.mem_cons.mp hrow with rfl | hrow
      · exact hbefore
      · exact ih row hrow

/-- No new row clashes with a row that was stored before. -/
theorem Fits.not_clashes (h : g.Fits rows news) :
    ∀ row ∈ news, ∀ other ∈ rows, g.clashes row other = false := by
  induction h with
  | nil => simp
  | cons _ _ hkeys _ ih =>
      intro row hrow other hother
      rcases List.mem_cons.mp hrow with rfl | hrow
      · exact hkeys other hother
      · exact ih row hrow other (List.mem_append_left _ hother)

/-- Keys stay unique. -/
theorem Fits.unique (h : g.Fits rows news) (hrows : g.Unique rows) : g.Unique (rows ++ news) := by
  induction h with
  | nil => simpa using hrows
  | @cons rows news row _ _ hkeys _ ih =>
      have hone : g.Unique (rows ++ [row]) := by
        refine List.pairwise_append.mpr ⟨hrows, List.pairwise_singleton _ _, ?_⟩
        intro other hother last hlast
        obtain rfl := List.mem_singleton.mp hlast
        exact hkeys other hother
      simpa using ih hone

end Permanent

section Unique

variable {g} {rows : List ρ}

/-- Of two stored rows that clash both ways there is only one. -/
theorem Unique.eq_of_clashes (h : g.Unique rows) {row other : ρ} (hrow : row ∈ rows)
    (hother : other ∈ rows) (hclash : g.clashes row other = true)
    (hclash' : g.clashes other row = true) : row = other := by
  induction h with
  | nil => cases hrow
  | @cons first rest hfirst _ ih =>
      rcases List.mem_cons.mp hrow with rfl | hrest
      · rcases List.mem_cons.mp hother with rfl | hlater
        · rfl
        · rw [hfirst other hlater] at hclash'
          cases hclash'
      · rcases List.mem_cons.mp hother with rfl | hlater
        · rw [hfirst row hrest] at hclash
          cases hclash
        · exact ih hrest hlater

/-- An update that keeps the keys keeps them unique. -/
theorem Unique.map (h : g.Unique rows) {f : ρ → ρ}
    (hkeys : ∀ row ∈ rows, ∀ later ∈ rows, g.clashes (f later) (f row) = g.clashes later row) :
    g.Unique (rows.map f) := by
  refine List.pairwise_map.mpr (h.imp_of_mem ?_)
  intro row later hrow hlater hclash
  rw [hkeys row hrow later hlater]
  exact hclash

end Unique

end Guards

end Relational
