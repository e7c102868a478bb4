import VerifierCI.Relational.Table

/-! # Parts of a relation

The rows of a table that meet a condition form a table of their own. Statements
that leave the condition of a row alone act on the part as they act on the
whole, and those that reach only rows outside leave the part as it is.
-/

namespace Relational

universe uKey uRow

namespace Table

variable {κ : Type uKey} {ρ : Type uRow} {key : ρ → κ}

def restrict (t : Table key) (q : ρ → Bool) : Table key where
  rows := t.rows.filter q
  nodup := t.nodup.sublist (List.filter_sublist.map key)

section Restrict

variable {t : Table key} {p q : ρ → Bool} {f : ρ → ρ} {hkey : ∀ row, key (f row) = key row}

@[simp] theorem mem_restrict {row : ρ} : row ∈ t.restrict q ↔ row ∈ t ∧ q row = true := by
  simp [restrict, mem_def]

/-- A row is found in the part exactly if it is found in the table and belongs to the part. -/
theorem find?_restrict [DecidableEq κ] (t : Table key) (q : ρ → Bool) (k : κ) :
    (t.restrict q).find? k = (t.find? k).filter q := by
  apply Option.ext
  intro row
  simp only [find?_eq_some_iff, Option.filter_eq_some_iff, mem_restrict]
  constructor
  · rintro ⟨⟨hrow, hq⟩, hk⟩
    exact ⟨⟨hrow, hk⟩, hq⟩
  · rintro ⟨⟨hrow, hk⟩, hq⟩
    exact ⟨⟨hrow, hq⟩, hk⟩

/-- A query that only asks for rows of the part may be run on it. -/
theorem select_restrict (h : ∀ row ∈ t, p row = true → q row = true) :
    (t.restrict q).select p = t.select p := by
  simp only [select, restrict, List.filter_filter]
  apply List.filter_congr
  intro row hrow
  cases hp : p row with
  | false => rfl
  | true => simp [h row hrow hp]

/-- An update that moves no row into the part or out of it. -/
theorem restrict_update (h : ∀ row ∈ t, p row = true → q (f row) = q row) :
    (t.update p f hkey).restrict q = (t.restrict q).update p f hkey := by
  apply ext
  simp only [restrict, update, List.filter_map]
  congr 1
  apply List.filter_congr
  intro row hrow
  simp only [Function.comp_apply]
  split
  next hp => exact h row hrow hp
  next => rfl

theorem restrict_insert? [DecidableEq κ] {u : Table key} {row : ρ} (h : t.insert? row = some u)
    (hq : q row = true) : (t.restrict q).insert? row = some (u.restrict q) := by
  obtain ⟨hnone, hrows⟩ := insert?_eq_some_iff.mp h
  rw [insert?_eq_some_iff, find?_restrict, hnone]
  refine ⟨rfl, ?_⟩
  simp [restrict, hrows, hq]

/-- A row inserted outside leaves the part as it is. -/
theorem restrict_insert?_of_not [DecidableEq κ] {u : Table key} {row : ρ}
    (h : t.insert? row = some u) (hq : q row = false) : u.restrict q = t.restrict q := by
  apply ext
  simp [restrict, (insert?_eq_some_iff.mp h).2, hq]

end Restrict

end Table

end Relational
