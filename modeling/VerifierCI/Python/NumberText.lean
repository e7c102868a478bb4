import Mathlib.Data.List.TakeWhile
import Mathlib.Tactic.Common

/-! # Numbers in JSON text

A JSON number is a sign, a whole part without leading zeros, an optional
fraction and an optional exponent. The scanner takes the longest number at the
front of a text, so what it reads back from a written number is that number.
-/

namespace Python

/-- The parts of a number. An empty fraction is an absent one. -/
structure NumberText where
  negative : Bool
  whole : List Char
  fraction : List Char
  exponent : Option Int
deriving DecidableEq, Repr

namespace NumberText

def signed (negative : Bool) (n : Nat) : Int :=
  if negative then -n else n

/-! ## Writing -/

/-- Exponents are written with their sign and at least two digits. -/
def exponentText : Option Int → List Char
  | none => []
  | some e =>
      let digits := Nat.toDigits 10 e.natAbs
      'e' :: (if e < 0 then '-' else '+') :: (if digits.length < 2 then '0' :: digits else digits)

def fractionText (fraction : List Char) : List Char :=
  if fraction.isEmpty then [] else '.' :: fraction

def text (number : NumberText) : List Char :=
  (if number.negative then ['-'] else []) ++ number.whole ++ fractionText number.fraction ++
    exponentText number.exponent

/-! ## Scanning -/

def scanWhole : List Char → Option (List Char × List Char)
  | [] => none
  | c :: rest =>
      if c = '0' then some (['0'], rest)
      else if c.isDigit then some (c :: rest.takeWhile Char.isDigit, rest.dropWhile Char.isDigit)
      else none

/-- A point counts only with a digit behind it. -/
def scanFraction : List Char → List Char × List Char
  | '.' :: rest =>
      if (rest.takeWhile Char.isDigit).isEmpty then ([], '.' :: rest)
      else (rest.takeWhile Char.isDigit, rest.dropWhile Char.isDigit)
  | text => ([], text)

def scanSign : List Char → Bool × List Char
  | '-' :: rest => (true, rest)
  | '+' :: rest => (false, rest)
  | text => (false, text)

/-- So does an exponent mark. -/
def scanExponent : List Char → Option Int × List Char
  | [] => (none, [])
  | c :: rest =>
      let digits := (scanSign rest).2.takeWhile Char.isDigit
      if (c = 'e' ∨ c = 'E') ∧ digits ≠ [] then
        (some (signed (scanSign rest).1 (Nat.ofDigitChars 10 digits 0)),
          (scanSign rest).2.dropWhile Char.isDigit)
      else (none, c :: rest)

def scanUnsigned (negative : Bool) (text : List Char) : Option (NumberText × List Char) := do
  let (whole, rest) ← scanWhole text
  let (fraction, rest) := scanFraction rest
  let (exponent, rest) := scanExponent rest
  some (⟨negative, whole, fraction, exponent⟩, rest)

def scan : List Char → Option (NumberText × List Char)
  | '-' :: rest => scanUnsigned true rest
  | text => scanUnsigned false text

/-! ## Scanning what was written -/

/-- The parts spell a number. -/
structure WellFormed (number : NumberText) : Prop where
  whole : number.whole = ['0'] ∨ ∃ c digits, number.whole = c :: digits ∧ c ≠ '0' ∧
    c.isDigit = true ∧ ∀ d ∈ digits, d.isDigit = true
  fraction : ∀ d ∈ number.fraction, d.isDigit = true

/-- A text with which no number goes on. -/
def Stops (rest : List Char) : Prop :=
  ∀ c ∈ rest.head?, c.isDigit = false ∧ c ≠ '.' ∧ c ≠ 'e' ∧ c ≠ 'E'

theorem stops_nil : Stops [] := by
  intro c hc
  cases hc

theorem stops_cons {c : Char} (rest : List Char)
    (hc : c.isDigit = false ∧ c ≠ '.' ∧ c ≠ 'e' ∧ c ≠ 'E') : Stops (c :: rest) := by
  intro d hd
  obtain rfl := Option.some.inj hd
  exact hc

section Digits

variable {digits rest : List Char}

theorem takeWhile_digits (hdigits : ∀ d ∈ digits, d.isDigit = true)
    (hrest : ∀ c ∈ rest.head?, c.isDigit = false) :
    (digits ++ rest).takeWhile Char.isDigit = digits := by
  rw [List.takeWhile_append_of_pos hdigits]
  cases rest with
  | nil => simp
  | cons c rest => simp [hrest c rfl]

theorem dropWhile_digits (hdigits : ∀ d ∈ digits, d.isDigit = true)
    (hrest : ∀ c ∈ rest.head?, c.isDigit = false) :
    (digits ++ rest).dropWhile Char.isDigit = rest := by
  rw [List.dropWhile_append_of_pos hdigits]
  cases rest with
  | nil => rfl
  | cons c rest => simp [hrest c rfl]

end Digits

/-- An exponent is read back where a text goes on with no digit. Where none is written, no `e`
may follow that would be taken for one. -/
theorem scanExponent_text {rest : List Char} (hrest : Stops rest) (exponent : Option Int) :
    scanExponent (exponentText exponent ++ rest) = (exponent, rest) := by
  cases exponent with
  | none =>
      cases rest with
      | nil => rfl
      | cons c rest =>
          obtain ⟨_, _, he, hE⟩ := hrest c rfl
          simp [exponentText, scanExponent, he, hE]
  | some e =>
      -- an exponent is written with two digits at least
      let padded :=
        if (Nat.toDigits 10 e.natAbs).length < 2 then '0' :: Nat.toDigits 10 e.natAbs
        else Nat.toDigits 10 e.natAbs
      have hdigits : ∀ d ∈ padded, d.isDigit = true := by
        intro d hd
        simp only [padded] at hd
        split at hd
        · rcases List.mem_cons.mp hd with rfl | hd
          · decide
          · exact Nat.isDigit_of_mem_toDigits (by decide) (by decide) hd
        · exact Nat.isDigit_of_mem_toDigits (by decide) (by decide) hd
      have hne : padded ≠ [] := by
        simp only [padded]
        split
        · simp
        · exact Nat.toDigits_ne_nil
      have hvalue : Nat.ofDigitChars 10 padded 0 = e.natAbs := by
        simp only [padded]
        split
        · rw [Nat.ofDigitChars_cons]
          exact Nat.ofDigitChars_ten_toDigits
        · exact Nat.ofDigitChars_ten_toDigits
      have hstop : ∀ c ∈ rest.head?, c.isDigit = false := fun c hc => (hrest c hc).1
      have hsign : scanSign ((if e < 0 then '-' else '+') :: (padded ++ rest)) =
          (decide (e < 0), padded ++ rest) := by
        split <;> simp_all [scanSign]
      show scanExponent ('e' :: (if e < 0 then '-' else '+') :: (padded ++ rest)) = _
      rw [scanExponent, hsign]
      simp only [takeWhile_digits hdigits hstop, dropWhile_digits hdigits hstop, hvalue]
      rw [if_pos ⟨Or.inl trivial, hne⟩]
      congr 2
      simp only [signed, decide_eq_true_eq]
      split <;> omega

/-- What may follow a fraction: an exponent, or the end of the number. -/
theorem exponentText_head {rest : List Char} (hrest : Stops rest) (exponent : Option Int) :
    ∀ c ∈ (exponentText exponent ++ rest).head?, c.isDigit = false ∧ c ≠ '.' := by
  intro c hc
  cases exponent with
  | none => exact ⟨(hrest c hc).1, (hrest c hc).2.1⟩
  | some e =>
      obtain rfl := Option.some.inj hc
      decide

/-- So is a fraction, with a point that is followed by digits. -/
theorem scanFraction_text {fraction rest : List Char}
    (hfraction : ∀ d ∈ fraction, d.isDigit = true)
    (hrest : ∀ c ∈ rest.head?, c.isDigit = false ∧ c ≠ '.') :
    scanFraction (fractionText fraction ++ rest) = (fraction, rest) := by
  have hstop : ∀ c ∈ rest.head?, c.isDigit = false := fun c hc => (hrest c hc).1
  cases fraction with
  | nil =>
      rw [fractionText, List.isEmpty_nil, if_pos rfl, List.nil_append]
      cases rest with
      | nil => rfl
      | cons c rest =>
          unfold scanFraction
          split
          next heq => exact absurd (List.cons.inj heq).1 (hrest c rfl).2
          next => rfl
  | cons d ds =>
      show scanFraction ('.' :: (d :: ds ++ rest)) = _
      simp only [scanFraction, takeWhile_digits hfraction hstop, dropWhile_digits hfraction hstop]
      simp

/-- The scanner takes the whole number and stops behind it. Whole part, fraction and exponent
are taken in turn, each up to a character it cannot contain. -/
theorem scanUnsigned_text {number : NumberText} (hnumber : number.WellFormed) {rest : List Char}
    (hrest : Stops rest) (negative : Bool) :
    scanUnsigned negative (number.whole ++ (fractionText number.fraction ++
      (exponentText number.exponent ++ rest))) =
      some ({ number with negative := negative }, rest) := by
  have htail := exponentText_head hrest number.exponent
  have hstop : ∀ c ∈ (fractionText number.fraction ++
      (exponentText number.exponent ++ rest)).head?, c.isDigit = false := by
    unfold fractionText
    split
    · exact fun c hc => (htail c hc).1
    · intro c hc
      obtain rfl := Option.some.inj hc
      decide
  have hwhole : scanWhole (number.whole ++ (fractionText number.fraction ++
      (exponentText number.exponent ++ rest))) =
      some (number.whole, fractionText number.fraction ++
        (exponentText number.exponent ++ rest)) := by
    rcases hnumber.whole with hzero | ⟨c, digits, hcons, hne, hdigit, hdigits⟩
    · rw [hzero]
      simp [scanWhole]
    · rw [hcons]
      simp only [List.cons_append, scanWhole, hne, hdigit, if_false, if_true,
        takeWhile_digits hdigits hstop, dropWhile_digits hdigits hstop]
  simp only [scanUnsigned, hwhole, Option.bind_eq_bind, Option.bind_some,
    scanFraction_text hnumber.fraction htail, scanExponent_text hrest]

/-- The scanner reads back a written number and stops behind it. -/
theorem scan_text {number : NumberText} (hnumber : number.WellFormed) {rest : List Char}
    (hrest : Stops rest) : scan (number.text ++ rest) = some (number, rest) := by
  obtain ⟨negative, whole, fraction, exponent⟩ := number
  have h := scanUnsigned_text hnumber hrest negative
  cases negative with
  | true =>
      simp only [text, if_true, List.append_assoc, List.singleton_append, scan]
      exact h
  | false =>
      simp only [text, Bool.false_eq_true, if_false, List.nil_append, List.append_assoc]
      have hhead : ∀ tail r, whole ++ tail ≠ '-' :: r := by
        intro tail r heq
        rcases hnumber.whole with hzero | ⟨c, digits, hcons, _, hdigit, _⟩
        · rw [show whole = ['0'] from hzero] at heq
          cases heq
        · rw [show whole = c :: digits from hcons] at heq
          rw [(List.cons.inj heq).1] at hdigit
          exact absurd hdigit (by decide)
      unfold scan
      split
      next heq => exact absurd heq (hhead _ _)
      next => exact h

/-! ## Integers -/

def ofInt (n : Int) : NumberText where
  negative := decide (n < 0)
  whole := Nat.toDigits 10 n.natAbs
  fraction := []
  exponent := none

/-- A natural number is written without a leading zero, unless it is zero. By strong induction:
dividing by ten takes off the last digit and leaves the first where it was. -/
theorem toDigits_wellFormed (n : Nat) :
    Nat.toDigits 10 n = ['0'] ∨ ∃ c digits, Nat.toDigits 10 n = c :: digits ∧ c ≠ '0' ∧
      c.isDigit = true ∧ ∀ d ∈ digits, d.isDigit = true := by
  have hdigit : ∀ d ∈ Nat.toDigits 10 n, d.isDigit = true := fun d hd =>
    Nat.isDigit_of_mem_toDigits (by decide) (by decide) hd
  have hhead : 0 < n → ∀ c ∈ (Nat.toDigits 10 n).head?, c ≠ '0' := by
    clear hdigit
    induction n using Nat.strongRecOn with
    | ind n ih =>
        intro hpos c hc
        rw [Nat.toDigits_eq_if (by decide)] at hc
        split at hc
        next hlt =>
          obtain rfl := Option.some.inj hc
          have hdigits : ∀ m < 10, 0 < m → m.digitChar ≠ '0' := by decide
          exact hdigits n hlt hpos
        next hge =>
          have hne : Nat.toDigits 10 (n / 10) ≠ [] := Nat.toDigits_ne_nil
          rw [List.head?_append, List.head?_eq_some_head hne, Option.some_or] at hc
          exact ih (n / 10) (by omega) (by omega) c (by rwa [List.head?_eq_some_head hne])
  rcases Nat.eq_zero_or_pos n with rfl | hpos
  · exact Or.inl (Nat.toDigits_zero 10)
  · cases hdigits : Nat.toDigits 10 n with
    | nil => exact absurd hdigits Nat.toDigits_ne_nil
    | cons c digits =>
        rw [hdigits] at hdigit
        refine Or.inr ⟨c, digits, rfl, ?_, hdigit c List.mem_cons_self, ?_⟩
        · exact hhead hpos c (by rw [hdigits]; rfl)
        · exact fun d hd => hdigit d (List.mem_cons_of_mem c hd)

theorem ofInt_wellFormed (n : Int) : (ofInt n).WellFormed :=
  ⟨toDigits_wellFormed n.natAbs, by simp [ofInt]⟩

def toInt? (number : NumberText) : Option Int :=
  if number.fraction.isEmpty ∧ number.exponent.isNone then
    some (signed number.negative (Nat.ofDigitChars 10 number.whole 0))
  else none

theorem toInt?_ofInt (n : Int) : (ofInt n).toInt? = some n := by
  simp only [toInt?, ofInt, List.isEmpty_nil, Option.isNone_none, and_self, if_true,
    Nat.ofDigitChars_ten_toDigits, signed, decide_eq_true_eq]
  congr 1
  split <;> omega

end NumberText

end Python
