import VerifierCI.Python.FloatText
import VerifierCI.Python.Text

/-! # `float` of other values

Of a text: surrounding white space is dropped, digits of any script count,
and underscores may stand between digits. Of an integer: the nearest float,
if there is a finite one.
-/

namespace Python

/-- The zeros of the decimal digits; the digits of a script follow its zero. -/
def decimalZeros : List Nat :=
  [0x30, 0x660, 0x6f0, 0x7c0, 0x966, 0x9e6, 0xa66, 0xae6, 0xb66, 0xbe6, 0xc66, 0xce6, 0xd66, 0xde6,
    0xe50, 0xed0, 0xf20, 0x1040, 0x1090, 0x17e0, 0x1810, 0x1946, 0x19d0, 0x1a80, 0x1a90, 0x1b50,
    0x1bb0, 0x1c40, 0x1c50, 0xa620, 0xa8d0, 0xa900, 0xa9d0, 0xa9f0, 0xaa50, 0xabf0, 0xff10, 0x104a0,
    0x10d30, 0x11066, 0x110f0, 0x11136, 0x111d0, 0x112f0, 0x11450, 0x114d0, 0x11650, 0x116c0,
    0x11730, 0x118e0, 0x11950, 0x11c50, 0x11d50, 0x11da0, 0x11f50, 0x16a60, 0x16ac0, 0x16b50,
    0x1d7ce, 0x1d7d8, 0x1d7e2, 0x1d7ec, 0x1d7f6, 0x1e140, 0x1e2f0, 0x1e4f0, 0x1e950, 0x1fbf0]

def decimalDigit? (c : Char) : Option Nat :=
  (decimalZeros.find? fun first => first ≤ c.toNat && c.toNat < first + 10).map (c.toNat - ·)

/-- A character as the number parser sees it; what is neither ASCII, a space
nor a digit fits nowhere in a number. -/
def transformDecimal (c : Char) : Char :=
  if c.toNat < 127 then c
  else if isSpace c then ' '
  else
    match decimalDigit? c with
    | some digit => digit.digitChar
    | none => '?'

def isAsciiSpace (c : Char) : Bool :=
  c == ' ' || (9 ≤ c.toNat && c.toNat ≤ 13)

def stripAscii (text : List Char) : List Char :=
  ((text.dropWhile isAsciiSpace).reverse.dropWhile isAsciiSpace).reverse

/-- Drop the underscores, each of which has to stand between two digits. -/
def dropUnderscores (previous : Char) : List Char → Option (List Char)
  | [] => if previous = '_' then none else some []
  | c :: rest =>
      if c = '_' then
        if previous.isDigit then dropUnderscores c rest else none
      else if previous = '_' ∧ ¬ c.isDigit then none
      else (dropUnderscores c rest).map (c :: ·)

namespace PyFloat

def nan (negative : Bool) : PyFloat :=
  ofMagnitude negative (infinity + 2 ^ 51)

/-- `1.5`, `.5`, `5.` and the like, behind the sign. -/
def ofUnsigned? (negative : Bool) (text : List Char) : Option PyFloat :=
  let whole := text.takeWhile Char.isDigit
  let afterWhole := text.dropWhile Char.isDigit
  let (fraction, afterFraction) :=
    match afterWhole with
    | '.' :: rest => (rest.takeWhile Char.isDigit, rest.dropWhile Char.isDigit)
    | rest => ([], rest)
  let value (exponent : Int) : PyFloat :=
    ofDecimal negative (Nat.ofDigitChars 10 (whole ++ fraction) 0) (exponent - fraction.length)
  if whole ++ fraction = [] then none
  else
    match afterFraction with
    | [] => some (value 0)
    | c :: rest =>
        let (negativeExponent, digits) := NumberText.scanSign rest
        if (c = 'e' ∨ c = 'E') ∧ digits ≠ [] ∧ digits.all Char.isDigit = true then
          some (value (NumberText.signed negativeExponent (Nat.ofDigitChars 10 digits 0)))
        else none

/-- `float(text)`, or `none` for a `ValueError`. -/
def ofText? (text : String) : Option PyFloat := do
  let chars := stripAscii (text.toList.map transformDecimal)
  let chars ← dropUnderscores '\x00' chars
  let (negative, rest) := NumberText.scanSign chars
  let word := String.ofList (rest.map Char.toLower)
  if word = "inf" ∨ word = "infinity" then some (ofMagnitude negative infinity)
  else if word = "nan" then some (nan negative)
  else ofUnsigned? negative rest

/-- `float(n)`, or `none` for an `OverflowError`. -/
def ofInt? (n : Int) : Option PyFloat :=
  let value := ofDecimal (decide (n < 0)) n.natAbs 0
  if value.isFinite then some value else none

end PyFloat

end Python
