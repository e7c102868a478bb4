import Mathlib.Data.List.Sort
import Mathlib.Data.Prod.Lex
import Mathlib.Data.String.Basic

/-! # Sorting by a key

`sorted(items, key=key)` is stable, so its result depends on the order of the
items only where different items have one key.
-/

namespace Python

section Sorted

variable {α κ : Type} [LinearOrder κ] {key : α → κ} {le : α → α → Prop} [DecidableRel le]

/-- Sorting leaves the keys in order. -/
theorem pairwise_sorted (hle : ∀ a b, le a b ↔ key a ≤ key b) (items : List α) :
    (items.insertionSort le).Pairwise le := by
  have : Std.Total le := ⟨fun a b => by
    rw [hle, hle]
    exact le_total (key a) (key b)⟩
  have : IsTrans α le := ⟨fun a b c hab hbc => by
    rw [hle] at *
    exact hab.trans hbc⟩
  exact List.pairwise_insertionSort le items

/-- Two orders of items told apart by their keys are sorted alike. -/
theorem sorted_eq_of_perm (hle : ∀ a b, le a b ↔ key a ≤ key b) {items others : List α}
    (hkey : ∀ a ∈ items, ∀ b ∈ items, key a = key b → a = b) (h : items.Perm others) :
    items.insertionSort le = others.insertionSort le := by
  have hsorted : (items.insertionSort le).Perm (others.insertionSort le) :=
    ((List.perm_insertionSort le items).trans h).trans (List.perm_insertionSort le others).symm
  refine List.Perm.eq_of_pairwise ?_ (pairwise_sorted hle items) (pairwise_sorted hle others)
    hsorted
  intro a b ha hb hab hba
  rw [hle] at hab hba
  refine hkey a ((List.mem_insertionSort le).mp ha) b ?_ (le_antisymm hab hba)
  exact h.mem_iff.mpr ((List.mem_insertionSort le).mp hb)

theorem sorted_eq_of_perm_self {first second : List κ} (h : first.Perm second) :
    first.insertionSort (· ≤ ·) = second.insertionSort (· ≤ ·) :=
  sorted_eq_of_perm (fun _ _ => Iff.rfl) (fun _ _ _ _ heq => heq) h

end Sorted

end Python
