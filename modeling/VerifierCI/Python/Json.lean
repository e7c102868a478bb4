import Mathlib.Algebra.Ring.Int.Defs
import Mathlib.Algebra.Ring.Nat
import Mathlib.Data.Rat.Defs

/-! # JSON trees and their numbers

A JSON text is represented by the value `json.loads` returns for it. Integers
are unbounded, floating-point numbers are IEEE binary64 bit patterns, and an
object lists its members in insertion order.
-/

namespace Python

/-- A Python `float`: the bits of its binary64 representation. -/
structure PyFloat where
  bits : BitVec 64
deriving DecidableEq, Repr

/-- The number a value denotes in a comparison. -/
inductive Number where
  | nan
  | infinity (negative : Bool)
  | rational (value : ℚ)
deriving DecidableEq

/-- Numeric `==`; a NaN equals nothing. -/
def Number.eq : Number → Number → Bool
  | .infinity a, .infinity b => a == b
  | .rational a, .rational b => a == b
  | _, _ => false

namespace PyFloat

def exponent (x : PyFloat) : Nat := (x.bits.extractLsb' 52 11).toNat

def fraction (x : PyFloat) : Nat := (x.bits.extractLsb' 0 52).toNat

def isFinite (x : PyFloat) : Bool := x.exponent != 2047

def number (x : PyFloat) : Number :=
  let sign : Int := if x.bits.msb then -1 else 1
  if x.exponent = 2047 then
    if x.fraction = 0 then .infinity x.bits.msb else .nan
  else if x.exponent = 0 then
    .rational (mkRat (sign * x.fraction * 2) (2 ^ 1075))
  else
    .rational (mkRat (sign * (x.fraction + 2 ^ 52) * 2 ^ x.exponent) (2 ^ 1075))

end PyFloat

/-- A decoded JSON value. -/
inductive Json where
  | null
  | bool (value : Bool)
  | int (value : Int)
  | float (value : PyFloat)
  | str (value : String)
  | arr (items : List Json)
  | obj (members : List (String × Json))
deriving Repr

namespace Json

def number? : Json → Option Number
  | .bool value => some (.rational (if value then 1 else 0))
  | .int value => some (.rational value)
  | .float value => some value.number
  | _ => none

mutual

/-- Python's `==` on decoded values; the order of object members is ignored. -/
def eq : Json → Json → Bool
  | .null, .null => true
  | .str a, .str b => a == b
  | .arr xs, .arr ys => eqItems xs ys
  | .obj xs, .obj ys => xs.length == ys.length && eqMembers xs ys
  | x, y =>
      match x.number?, y.number? with
      | some a, some b => a.eq b
      | _, _ => false

def eqItems : List Json → List Json → Bool
  | [], [] => true
  | x :: xs, y :: ys => x.eq y && eqItems xs ys
  | _, _ => false

def eqMembers : List (String × Json) → List (String × Json) → Bool
  | [], _ => true
  | (key, x) :: rest, ys =>
      (match ys.lookup key with
      | some y => x.eq y
      | none => false) && eqMembers rest ys

end

mutual

/-- `json.dumps` writes `NaN` and `Infinity` literally, which is not JSON; the
text it writes is valid exactly when every float is finite. -/
def isValid : Json → Bool
  | .float value => value.isFinite
  | .arr items => areValid items
  | .obj members => areMembersValid members
  | _ => true

def areValid : List Json → Bool
  | [] => true
  | item :: rest => item.isValid && areValid rest

def areMembersValid : List (String × Json) → Bool
  | [] => true
  | (_, value) :: rest => value.isValid && areMembersValid rest

end

/-- `sys.get_int_max_str_digits()`. -/
def maxDigits : Nat := 4300

mutual

/-- `json.dumps` spells every integer, which raises when one has more digits than the
interpreter converts. -/
def isSpellable : Json → Bool
  | .int value => (Nat.toDigits 10 value.natAbs).length ≤ maxDigits
  | .arr items => areSpellable items
  | .obj members => areMembersSpellable members
  | _ => true

def areSpellable : List Json → Bool
  | [] => true
  | item :: rest => item.isSpellable && areSpellable rest

def areMembersSpellable : List (String × Json) → Bool
  | [] => true
  | (_, value) :: rest => value.isSpellable && areMembersSpellable rest

end

/-- `tuple(value)`: the items of an array, the characters of a string, the
keys of an object. Other values are not iterable. -/
def toTuple? : Json → Option (List Json)
  | .arr items => some items
  | .str value => some (value.toList.map fun c => .str (String.singleton c))
  | .obj members => some (members.map fun member => .str member.1)
  | _ => none

def ofStrings (values : List String) : Json :=
  .arr (values.map .str)

@[simp] theorem isValid_ofStrings (values : List String) : (ofStrings values).isValid = true := by
  rw [ofStrings, isValid]
  induction values with
  | nil => rfl
  | cons value rest ih => simp [areValid, isValid, ih]

theorem ofStrings_injective : Function.Injective ofStrings := by
  intro values others h
  exact (List.map_inj_right fun _ _ heq => str.inj heq).mp (arr.inj h)

/-- An optional value, with `None` written as `null`. -/
def ofOption {α : Type} (write : α → Json) : Option α → Json
  | none => .null
  | some value => write value

theorem ofOption_injective {α : Type} {write : α → Json} (hwrite : Function.Injective write)
    (hnull : ∀ a, write a ≠ .null) : Function.Injective (ofOption write) := by
  intro value other h
  cases value with
  | none =>
      cases other with
      | none => rfl
      | some b => exact absurd h.symm (hnull b)
  | some a =>
      cases other with
      | none => exact absurd h (hnull a)
      | some b => exact congrArg some (hwrite h)

end Json

end Python
