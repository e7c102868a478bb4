import Mathlib.Data.List.Nodup
import Mathlib.Data.List.Basic

/-! # Stored relations with a primary key

A table is a list of rows in insertion order, no two of which share a key.
Statements either rewrite the rows that satisfy a condition without touching
their keys, or append one row whose key is not yet present.
-/

namespace Relational

universe uKey uRow

/-- A stored relation. The primary key constraint is part of the value. -/
structure Table {κ : Type uKey} {ρ : Type uRow} (key : ρ → κ) where
  rows : List ρ
  nodup : (rows.map key).Nodup

namespace Table

variable {κ : Type uKey} {ρ : Type uRow} {key : ρ → κ}

@[ext] theorem ext {t u : Table key} (h : t.rows = u.rows) : t = u := by
  cases t
  cases u
  cases h
  rfl

instance : Membership ρ (Table key) where
  mem t row := row ∈ t.rows

theorem mem_def {t : Table key} {row : ρ} : row ∈ t ↔ row ∈ t.rows := Iff.rfl

def empty : Table key := ⟨[], List.nodup_nil⟩

@[simp] theorem not_mem_empty (row : ρ) : row ∉ (empty : Table key) := by
  simp [mem_def, empty]

/-- The rows a query with condition `p` returns, in insertion order. -/
def select (t : Table key) (p : ρ → Bool) : List ρ :=
  t.rows.filter p

theorem mem_select {t : Table key} {p : ρ → Bool} {row : ρ} :
    row ∈ t.select p ↔ row ∈ t ∧ p row = true := by
  simp [select, mem_def]

theorem eq_of_key_eq {t : Table key} {row other : ρ} (hrow : row ∈ t) (hother : other ∈ t)
    (hkey : key row = key other) : row = other :=
  List.inj_on_of_nodup_map t.nodup hrow hother hkey

/-! ## Lookup by key -/

section Lookup

variable [DecidableEq κ]

def find? (t : Table key) (k : κ) : Option ρ :=
  t.rows.find? (fun row => decide (key row = k))

theorem find?_eq_some_iff {t : Table key} {k : κ} {row : ρ} :
    t.find? k = some row ↔ row ∈ t ∧ key row = k := by
  constructor
  · intro hfind
    exact ⟨List.mem_of_find?_eq_some hfind, by simpa using List.find?_some hfind⟩
  · rintro ⟨hrow, rfl⟩
    cases hfind : t.find? (key row) with
    | none =>
        have hnot := List.find?_eq_none.mp hfind row hrow
        simp at hnot
    | some other =>
        have hother : other ∈ t := List.mem_of_find?_eq_some hfind
        have hkey : key other = key row := by simpa using List.find?_some hfind
        exact congrArg some (eq_of_key_eq hother hrow hkey)

theorem find?_of_mem {t : Table key} {row : ρ} (hrow : row ∈ t) : t.find? (key row) = some row :=
  find?_eq_some_iff.mpr ⟨hrow, rfl⟩

theorem mem_of_find? {t : Table key} {k : κ} {row : ρ} (hfind : t.find? k = some row) : row ∈ t :=
  (find?_eq_some_iff.mp hfind).1

theorem key_of_find? {t : Table key} {k : κ} {row : ρ} (hfind : t.find? k = some row) :
    key row = k :=
  (find?_eq_some_iff.mp hfind).2

theorem find?_eq_none_iff {t : Table key} {k : κ} :
    t.find? k = none ↔ ∀ row ∈ t, key row ≠ k := by
  simp [find?, mem_def]

end Lookup

/-! ## Updates -/

/-- `UPDATE … SET f WHERE p`. The assignment leaves the key column alone. -/
def update (t : Table key) (p : ρ → Bool) (f : ρ → ρ) (hkey : ∀ row, key (f row) = key row) :
    Table key where
  rows := t.rows.map (fun row => if p row then f row else row)
  nodup := by
    have hkeys : (t.rows.map (fun row => if p row then f row else row)).map key =
        t.rows.map key := by
      rw [List.map_map]
      apply List.map_congr_left
      intro row _
      simp only [Function.comp_apply]
      split
      · exact hkey row
      · rfl
    rw [hkeys]
    exact t.nodup

section Update

variable {p : ρ → Bool} {f : ρ → ρ} {hkey : ∀ row, key (f row) = key row}

theorem mem_update {t : Table key} {row : ρ} :
    row ∈ t.update p f hkey ↔ ∃ old ∈ t, row = if p old then f old else old := by
  simp only [mem_def, update, List.mem_map]
  constructor
  · rintro ⟨old, hold, rfl⟩
    exact ⟨old, hold, rfl⟩
  · rintro ⟨old, hold, rfl⟩
    exact ⟨old, hold, rfl⟩

/-- An update keeps keys, so a row is found where it was and rewritten if it meets the
condition. -/
theorem find?_update [DecidableEq κ] (t : Table key) (k : κ) :
    (t.update p f hkey).find? k = (t.find? k).map (fun row => if p row then f row else row) := by
  cases hfind : t.find? k with
  | none =>
      rw [find?_eq_none_iff] at hfind
      rw [Option.map_none, find?_eq_none_iff]
      intro row hrow
      obtain ⟨old, hold, rfl⟩ := mem_update.mp hrow
      have hne := hfind old hold
      split
      · rwa [hkey]
      · exact hne
  | some old =>
      obtain ⟨hold, hk⟩ := find?_eq_some_iff.mp hfind
      rw [Option.map_some, find?_eq_some_iff]
      refine ⟨mem_update.mpr ⟨old, hold, rfl⟩, ?_⟩
      split
      · rw [hkey, hk]
      · exact hk

/-- An update of the row under one key does not touch the other keys. -/
theorem find?_update_of_key_ne [DecidableEq κ] (t : Table key) {k other : κ} (hne : k ≠ other) :
    (t.update (fun row => decide (key row = other)) f hkey).find? k = t.find? k := by
  rw [find?_update]
  cases hfind : t.find? k with
  | none => rfl
  | some row =>
      have hrow : key row ≠ other := (key_of_find? hfind).trans_ne hne
      simp [hrow]

/-- An update whose condition no row meets changes nothing. -/
theorem update_eq_self {t : Table key} (hnone : ∀ row ∈ t, p row = false) :
    t.update p f hkey = t := by
  apply ext
  simp only [update]
  conv_rhs => rw [← List.map_id t.rows]
  apply List.map_congr_left
  intro row hrow
  simp [hnone row hrow]

/-- An assignment that every row it reaches already satisfies changes nothing. -/
theorem update_eq_self_of_fixed {t : Table key} (hfixed : ∀ row ∈ t, p row = true → f row = row) :
    t.update p f hkey = t := by
  apply ext
  simp only [update]
  conv_rhs => rw [← List.map_id t.rows]
  apply List.map_congr_left
  intro row hrow
  simp only [id_eq]
  split
  next hp => exact hfixed row hrow hp
  next => rfl

/-- A condition the assignment does not disturb selects the rewritten rows of
the same old ones. -/
theorem select_update (t : Table key) {q : ρ → Bool} (hq : ∀ row ∈ t, q (f row) = q row) :
    (t.update p f hkey).select q = (t.select q).map (fun row => if p row then f row else row) := by
  simp only [select, update, List.filter_map]
  congr 1
  apply List.filter_congr
  intro row hrow
  simp only [Function.comp_apply]
  split
  · exact hq row hrow
  · rfl

/-- Rows that meet a condition neither before nor after an update stay out of
its query, and the others are not touched. -/
theorem select_update_of_not (t : Table key) {q : ρ → Bool}
    (hq : ∀ row ∈ t, p row = true → q row = false ∧ q (f row) = false) :
    (t.update p f hkey).select q = t.select q := by
  have hrows : ∀ rows : List ρ, (∀ row ∈ rows, p row = true → q row = false ∧ q (f row) = false) →
      (rows.map fun row => if p row then f row else row).filter q = rows.filter q := by
    intro rows hrows
    induction rows with
    | nil => rfl
    | cons row rest ih =>
        have hrest := ih fun other hother => hrows other (List.mem_cons_of_mem row hother)
        cases hp : p row with
        | true =>
            obtain ⟨hbefore, hafter⟩ := hrows row List.mem_cons_self hp
            simp [hp, hbefore, hafter, hrest]
        | false => simp [hp, List.filter_cons, hrest]
  exact hrows t.rows hq

/-- Two assignments that agree on the rows they reach are one update. -/
theorem update_congr {t : Table key} {g : ρ → ρ} {hkey' : ∀ row, key (g row) = key row}
    (h : ∀ row ∈ t, p row = true → f row = g row) : t.update p f hkey = t.update p g hkey' := by
  apply ext
  simp only [update]
  apply List.map_congr_left
  intro row hrow
  split
  next hp => exact h row hrow hp
  next => rfl

/-- An update keeps the keys and their order. -/
theorem keys_update (t : Table key) : (t.update p f hkey).rows.map key = t.rows.map key := by
  simp only [update, List.map_map]
  apply List.map_congr_left
  intro row _
  simp only [Function.comp_apply]
  split
  · exact hkey row
  · rfl

/-- Two updates that reach different rows, before and after either, commute. -/
theorem update_comm {t : Table key} {q : ρ → Bool} {g : ρ → ρ}
    {hkey' : ∀ row, key (g row) = key row}
    (hp : ∀ row ∈ t, p row = true → q row = false ∧ q (f row) = false)
    (hq : ∀ row ∈ t, q row = true → p row = false ∧ p (g row) = false) :
    (t.update p f hkey).update q g hkey' = (t.update q g hkey').update p f hkey := by
  apply ext
  simp only [update, List.map_map]
  apply List.map_congr_left
  intro row hrow
  simp only [Function.comp_apply]
  cases hfirst : p row with
  | true =>
      obtain ⟨hbefore, hafter⟩ := hp row hrow hfirst
      simp [hfirst, hbefore, hafter]
  | false =>
      cases hsecond : q row with
      | true => simp [hsecond, (hq row hrow hsecond).2]
      | false => simp [hfirst, hsecond]

/-- An update leaves the rows that miss its condition in place. -/
theorem find?_update_of_not [DecidableEq κ] {t : Table key} {row : ρ} (hrow : row ∈ t)
    (hp : p row = false) : (t.update p f hkey).find? (key row) = some row := by
  rw [find?_update, find?_of_mem hrow]
  simp [hp]

end Update

/-! ## Insertion -/

/-- `INSERT`: fails on a primary key conflict, otherwise appends the row. -/
def insert? [DecidableEq κ] (t : Table key) (row : ρ) : Option (Table key) :=
  if hfresh : key row ∈ t.rows.map key then none
  else some ⟨t.rows ++ [row], by
    rw [List.map_append]
    exact List.nodup_append.mpr ⟨t.nodup, by simp, by
      rintro k hk k' hk' rfl
      simp only [List.map_cons, List.map_nil, List.mem_singleton] at hk'
      exact hfresh (hk' ▸ hk)⟩⟩

section Insert

variable [DecidableEq κ]

/-- An insertion goes through exactly if its key is free. -/
theorem insert?_eq_some_iff {t u : Table key} {row : ρ} :
    t.insert? row = some u ↔ t.find? (key row) = none ∧ u.rows = t.rows ++ [row] := by
  have hmem : key row ∈ t.rows.map key ↔ t.find? (key row) ≠ none := by
    rw [ne_eq, find?_eq_none_iff]
    simp [mem_def]
  unfold insert?
  split
  next hfresh =>
    constructor
    · intro h
      cases h
    · rintro ⟨hnone, _⟩
      exact absurd hnone (hmem.mp hfresh)
  next hfresh =>
    have hnone : t.find? (key row) = none := by
      by_contra hne
      exact hfresh (hmem.mpr hne)
    constructor
    · intro h
      obtain rfl := Option.some.inj h
      exact ⟨hnone, rfl⟩
    · rintro ⟨_, hrows⟩
      exact congrArg some (ext hrows.symm)

/-- An insertion fails only on a key that is present. -/
theorem find?_ne_none_of_insert? {t : Table key} {row : ρ} (hinsert : t.insert? row = none) :
    t.find? (key row) ≠ none := by
  intro hnone
  unfold insert? at hinsert
  split at hinsert
  next hpresent =>
    obtain ⟨other, hother, hkey⟩ := List.mem_map.mp hpresent
    exact find?_eq_none_iff.mp hnone other hother hkey
  next => cases hinsert

theorem mem_insert? {t u : Table key} {row other : ρ} (hinsert : t.insert? row = some u) :
    other ∈ u ↔ other ∈ t ∨ other = row := by
  rw [mem_def, (insert?_eq_some_iff.mp hinsert).2]
  simp [mem_def]

theorem find?_insert?_self {t u : Table key} {row : ρ} (hinsert : t.insert? row = some u) :
    u.find? (key row) = some row :=
  find?_of_mem ((mem_insert? hinsert).mpr (Or.inr rfl))

theorem find?_insert?_of_ne {t u : Table key} {row : ρ} (hinsert : t.insert? row = some u)
    {k : κ} (hne : k ≠ key row) : u.find? k = t.find? k := by
  simp only [find?, (insert?_eq_some_iff.mp hinsert).2, List.find?_append]
  simp [hne.symm]

theorem select_insert? {t u : Table key} {row : ρ} (hinsert : t.insert? row = some u)
    (p : ρ → Bool) : u.select p = t.select p ++ (if p row then [row] else []) := by
  simp only [select, (insert?_eq_some_iff.mp hinsert).2, List.filter_append, List.filter_singleton]
  split <;> simp_all

end Insert

end Table

end Relational
