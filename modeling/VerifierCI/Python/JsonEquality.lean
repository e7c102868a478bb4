import Mathlib.Data.Option.Basic
import Mathlib.Data.Rat.Cast.Defs
import VerifierCI.Python.Json

/-! # When decoded values are equal

What Python's `==` on decoded JSON says about the values the JSON was written
from: optional scalars, tuples of strings and dictionaries of counts.
-/

namespace Python

/-- `x == y` on two floats. -/
def PyFloat.Same (x y : PyFloat) : Prop :=
  x.number.eq y.number = true

/-- `x == y` on two dictionaries: as many keys, and every key of the one is
looked up to the same value in the other. -/
def SameCounts (xs ys : List (String × Int)) : Prop :=
  xs.length = ys.length ∧ ∀ count ∈ xs, ys.lookup count.1 = some count.2

namespace Json

theorem eq_int (m n : Int) : (Json.int m).eq (.int n) = true ↔ m = n := by
  simp [eq, number?, Number.eq]

theorem eq_optional_int (x y : Option Int) :
    (ofOption .int x).eq (ofOption .int y) = true ↔ x = y := by
  cases x <;> cases y <;> simp [ofOption, eq, number?, Number.eq]

theorem eq_optional_str (x y : Option String) :
    (ofOption .str x).eq (ofOption .str y) = true ↔ x = y := by
  cases x <;> cases y <;> simp [ofOption, eq, number?]

theorem eq_optional_float (x y : Option PyFloat) :
    (ofOption .float x).eq (ofOption .float y) = true ↔ Option.Rel PyFloat.Same x y := by
  cases x <;> cases y <;> simp [ofOption, eq, number?, PyFloat.Same]

theorem eqItems_strings (xs ys : List String) :
    eqItems (xs.map .str) (ys.map .str) = true ↔ xs = ys := by
  induction xs generalizing ys with
  | nil => cases ys <;> simp [eqItems]
  | cons x xs ih =>
      cases ys with
      | nil => simp [eqItems]
      | cons y ys => simp [eqItems, eq, ih]

theorem lookup_map_snd {α β γ : Type} [BEq α] (f : β → γ) (members : List (α × β)) (key : α) :
    (members.map fun member => (member.1, f member.2)).lookup key =
      (members.lookup key).map f := by
  induction members with
  | nil => rfl
  | cons member rest ih =>
      obtain ⟨name, value⟩ := member
      simp only [List.map_cons, List.lookup_cons]
      cases key == name with
      | true => rfl
      | false => exact ih

/-- The JSON object of a dictionary of counts. -/
def ofCounts (counts : List (String × Int)) : Json :=
  .obj (counts.map fun count => (count.1, .int count.2))

theorem eqMembers_counts (xs ys : List (String × Int)) :
    eqMembers (xs.map fun count => (count.1, .int count.2))
      (ys.map fun count => (count.1, .int count.2)) = true ↔
        ∀ count ∈ xs, ys.lookup count.1 = some count.2 := by
  induction xs with
  | nil => simp [eqMembers]
  | cons count rest ih =>
      simp only [List.map_cons, eqMembers, Bool.and_eq_true, List.forall_mem_cons, ih,
        lookup_map_snd Json.int]
      refine and_congr_left fun _ => ?_
      cases ys.lookup count.1 with
      | none => simp
      | some value =>
          simp only [Option.map_some, eq_int, Option.some.injEq]
          exact eq_comm

theorem eq_optional_counts (x y : Option (List (String × Int))) :
    (ofOption ofCounts x).eq (ofOption ofCounts y) = true ↔ Option.Rel SameCounts x y := by
  cases x <;> cases y <;> simp [ofOption, ofCounts, eq, number?, SameCounts, eqMembers_counts]

end Json

end Python
