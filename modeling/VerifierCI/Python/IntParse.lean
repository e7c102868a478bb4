import VerifierCI.Python.FloatParse
import VerifierCI.Python.JsonLoads

/-! # `int` of other values and `str` of an integer

The interpreter bounds the digits of an integer in both directions.
-/

namespace Python

/-- `int(text)`, or `none` for a `ValueError`. -/
def intOfText? (text : List Char) : Option Int := do
  let (negative, rest) := NumberText.scanSign (stripAscii (text.map transformDecimal))
  let digits ← dropUnderscores '\x00' rest
  if digits ≠ [] ∧ digits.all Char.isDigit = true ∧ digits.length ≤ Json.maxDigits then
    some (NumberText.signed negative (Nat.ofDigitChars 10 digits 0))
  else none

/-- `str(n)`, or `none` for a `ValueError`. -/
def strOfInt? (n : Int) : Option String :=
  if (Nat.toDigits 10 n.natAbs).length ≤ Json.maxDigits then some (toString n) else none

/-- `int(x)`: the fraction is cut off. `none` is an infinity, which raises
`OverflowError`, or a NaN, which raises `ValueError`. -/
def PyFloat.toInt? (x : PyFloat) : Option Int :=
  match x.number with
  | .rational value => some (value.num.tdiv value.den)
  | _ => none

end Python
