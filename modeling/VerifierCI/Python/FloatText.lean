import Mathlib.Algebra.Order.Group.Nat
import Mathlib.Data.List.DropRight
import Mathlib.Tactic.Ring
import VerifierCI.Python.Json
import VerifierCI.Python.NumberText

/-! # Floats as texts

`float(text)` is the float nearest to the written decimal, ties to even, and
`repr` writes the shortest decimal that is read back as the same float. The
magnitudes of floats are counted in units of the least subnormal, `2 ^ -1074`.
-/

namespace Python

namespace PyFloat

/-! ## Rounding -/

def magnitude (x : PyFloat) : Nat := x.bits.toNat % 2 ^ 63

def isNegative (x : PyFloat) : Bool := x.bits.msb

def ofMagnitude (negative : Bool) (magnitude : Nat) : PyFloat :=
  ⟨BitVec.ofNat 64 ((if negative then 2 ^ 63 else 0) + magnitude)⟩

def infinity : Nat := 2047 * 2 ^ 52

def unitExponent : Nat := 1074

def unitsPerOne : Nat := 2 ^ unitExponent

/-- The units a finite magnitude denotes; subnormals have no hidden bit. -/
def units (magnitude : Nat) : Nat :=
  if magnitude < 2 ^ 53 then magnitude
  else (magnitude % 2 ^ 52 + 2 ^ 52) * 2 ^ (magnitude / 2 ^ 52 - 1)

/-- The quotient rounded to the nearest integer, ties to even. -/
def divRound (num den : Nat) : Nat :=
  let rest := 2 * (num % den)
  if den < rest ∨ (den = rest ∧ (num / den) % 2 = 1) then num / den + 1 else num / den

/-- The magnitude nearest to `num / den`. A significand that rounds up to
`2 ^ 53` carries into the exponent. -/
def nearestMagnitude (num den : Nat) : Nat :=
  let scaled := num * unitsPerOne
  let shift := (scaled / den).log2 - 52
  min (shift * 2 ^ 52 + divRound scaled (den * 2 ^ shift)) infinity

/-- The float nearest to `digits * 10 ^ exponent`. -/
def ofDecimal (negative : Bool) (digits : Nat) (exponent : Int) : PyFloat :=
  ofMagnitude negative
    (nearestMagnitude (digits * 10 ^ exponent.toNat) (10 ^ (-exponent).toNat))

/-! ## The shortest decimal -/

/-- Decimal places before the first digit of the integer part, or minus the
number of zeros behind the point. -/
def decimalPoint (units : Nat) : Int :=
  (Nat.toDigits 10 (units * 10 ^ 324 / unitsPerOne)).length - 324

/-- The decimals of `count` digits that can denote a magnitude: the nearest one
and the next one above. Below a power of two the floats lie closer, so the
nearest decimal may already denote a smaller float. -/
def candidates (units count : Nat) : List (Nat × Int) :=
  let exponent := decimalPoint units - count
  let num := units * 10 ^ (-exponent).toNat
  let den := unitsPerOne * 10 ^ exponent.toNat
  [(divRound num den, exponent), (num / den + 1, exponent)]

/-- The decimals of up to 17 digits that can denote `x`, shorter ones first. -/
def decimals (x : PyFloat) : List (Nat × Int) :=
  (List.range 17).flatMap fun n => candidates (units x.magnitude) (n + 1)

/-- The exact expansion of `x`. -/
def expansion (x : PyFloat) : Nat × Int :=
  (units x.magnitude * 5 ^ unitExponent, -unitExponent)

def Denotes (x : PyFloat) (decimal : Nat × Int) : Prop :=
  ofDecimal x.isNegative decimal.1 decimal.2 = x

instance (x : PyFloat) (decimal : Nat × Int) : Decidable (x.Denotes decimal) :=
  inferInstanceAs (Decidable (_ = _))

/-- The shortest decimal denoting `x`. There always is one of 17 digits; the
exact expansion stands behind them. -/
def shortest (x : PyFloat) : Nat × Int :=
  (x.decimals.find? fun decimal => x.Denotes decimal).getD x.expansion

/-! ## Rounding is exact on floats -/

theorem ofMagnitude_magnitude (x : PyFloat) : ofMagnitude x.isNegative x.magnitude = x := by
  obtain ⟨bits⟩ := x
  apply congrArg PyFloat.mk
  apply BitVec.eq_of_toNat_eq
  have hlt := bits.isLt
  simp only [isNegative, magnitude, BitVec.msb_eq_decide, decide_eq_true_eq, BitVec.toNat_ofNat]
  split <;> omega

theorem divRound_mul (quotient : Nat) {den : Nat} (hden : 0 < den) :
    divRound (quotient * den) den = quotient := by
  have hrest : quotient * den % den = 0 := Nat.mul_mod_left quotient den
  have hquotient : quotient * den / den = quotient := Nat.mul_div_cancel quotient hden
  simp only [divRound, hrest, hquotient]
  rw [if_neg (by omega)]

theorem divRound_scale (num den : Nat) {c : Nat} (hc : 0 < c) :
    divRound (num * c) (den * c) = divRound num den := by
  have hquotient : num * c / (den * c) = num / den := Nat.mul_div_mul_right num den hc
  have hrest : 2 * (num * c % (den * c)) = 2 * (num % den) * c := by
    rw [Nat.mul_mod_mul_right, Nat.mul_assoc]
  simp only [divRound, hquotient, hrest, Nat.mul_lt_mul_right hc, Nat.mul_left_inj hc.ne']

theorem nearestMagnitude_scale (num den : Nat) {c : Nat} (hc : 0 < c) :
    nearestMagnitude (num * c) (den * c) = nearestMagnitude num den := by
  have hscaled : num * c * unitsPerOne = num * unitsPerOne * c := Nat.mul_right_comm ..
  have hquotient : num * unitsPerOne * c / (den * c) = num * unitsPerOne / den :=
    Nat.mul_div_mul_right _ den hc
  simp only [nearestMagnitude, hscaled, hquotient, Nat.mul_right_comm den c, divRound_scale _ _ hc]

/-- Rounding looks at the ratio only. -/
theorem nearestMagnitude_congr {num den num' den' : Nat} (hden : 0 < den) (hden' : 0 < den')
    (hratio : num * den' = num' * den) :
    nearestMagnitude num den = nearestMagnitude num' den' := by
  rw [← nearestMagnitude_scale num den hden', hratio, Nat.mul_comm den den',
    nearestMagnitude_scale num' den' hden]

/-- The exponent of a magnitude, read off the binary length of its units. -/
theorem units_log2 {magnitude : Nat} :
    (units magnitude).log2 - 52 = if magnitude < 2 ^ 53 then 0 else magnitude / 2 ^ 52 - 1 := by
  unfold units
  split
  next hsmall =>
    rcases Nat.eq_zero_or_pos magnitude with rfl | hpos
    · rw [Nat.log2_zero]
    · have hlog := (Nat.log2_lt hpos.ne').mpr hsmall
      omega
  next hlarge =>
    have hlog : ((magnitude % 2 ^ 52 + 2 ^ 52) * 2 ^ (magnitude / 2 ^ 52 - 1)).log2 =
        52 + (magnitude / 2 ^ 52 - 1) := by
      have hpow : 0 < 2 ^ (magnitude / 2 ^ 52 - 1) := Nat.two_pow_pos _
      rw [Nat.log2_eq_iff (Nat.mul_pos (by omega) hpow).ne', Nat.pow_add, Nat.add_right_comm,
        Nat.pow_add]
      constructor
      · exact Nat.mul_le_mul_right _ (by omega)
      · exact Nat.mul_lt_mul_of_pos_right (by omega) hpow
    omega

/-- A number that is a float rounds to that float. -/
theorem nearestMagnitude_units {num den magnitude : Nat} (hden : 0 < den)
    (hfinite : magnitude < infinity) (hexact : num * unitsPerOne = units magnitude * den) :
    nearestMagnitude num den = magnitude := by
  have hquotient : units magnitude * den / den = units magnitude := Nat.mul_div_cancel _ hden
  simp only [nearestMagnitude, hexact, hquotient, units_log2]
  have hinfinity : infinity = 2047 * 2 ^ 52 := rfl
  split
  next hsmall =>
    rw [units, if_pos hsmall, Nat.pow_zero, Nat.mul_one, divRound_mul _ hden]
    omega
  next hlarge =>
    have hpow : 0 < 2 ^ (magnitude / 2 ^ 52 - 1) := Nat.two_pow_pos _
    rw [units, if_neg hlarge, Nat.mul_right_comm, Nat.mul_assoc _ den,
      divRound_mul _ (Nat.mul_pos hden hpow)]
    omega

/-! ## Decimals -/

theorem ten_pow_pos (n : Nat) : 0 < 10 ^ n := Nat.pow_pos (by decide)

/-- Trailing zeros may be moved into the exponent. -/
theorem ofDecimal_shift (negative : Bool) (digits k : Nat) (exponent : Int) :
    ofDecimal negative (digits * 10 ^ k) exponent = ofDecimal negative digits (exponent + k) := by
  have hexponents : k + exponent.toNat + (-(exponent + k)).toNat =
      (exponent + k).toNat + (-exponent).toNat := by
    omega
  apply congrArg (ofMagnitude negative)
  apply nearestMagnitude_congr (ten_pow_pos _) (ten_pow_pos _)
  rw [Nat.mul_assoc digits, ← Nat.pow_add, Nat.mul_assoc digits, ← Nat.pow_add,
    Nat.mul_assoc digits, ← Nat.pow_add, hexponents]

theorem ofDecimal_zero (negative : Bool) (exponent exponent' : Int) :
    ofDecimal negative 0 exponent = ofDecimal negative 0 exponent' := by
  apply congrArg (ofMagnitude negative)
  apply nearestMagnitude_congr (ten_pow_pos _) (ten_pow_pos _)
  rw [Nat.zero_mul, Nat.zero_mul, Nat.zero_mul, Nat.zero_mul]

/-- The exact expansion of a finite float denotes it. -/
theorem denotes_expansion {x : PyFloat} (hfinite : x.magnitude < infinity) :
    x.Denotes x.expansion := by
  have hexact : units x.magnitude * 5 ^ unitExponent * unitsPerOne =
      units x.magnitude * 10 ^ unitExponent := by
    rw [unitsPerOne, Nat.mul_assoc, ← Nat.mul_pow]
  have hnearest := nearestMagnitude_units (ten_pow_pos unitExponent) hfinite hexact
  have htoNat : (-(unitExponent : Int)).toNat = 0 := by omega
  rw [Denotes, expansion, ofDecimal, htoNat, Int.neg_neg, Int.toNat_natCast, Nat.pow_zero,
    Nat.mul_one, hnearest, ofMagnitude_magnitude]

theorem isFinite_iff {x : PyFloat} : x.isFinite = true ↔ x.magnitude < infinity := by
  have hfields : ∀ n < 18446744073709551616,
      n / 4503599627370496 % 2048 ≠ 2047 ↔
        n % 9223372036854775808 < 2047 * 4503599627370496 := by
    omega
  have h := hfields x.bits.toNat x.bits.isLt
  simp only [isFinite, exponent, BitVec.extractLsb'_toNat, bne_iff_ne, ne_eq,
    Nat.shiftRight_eq_div_pow]
  exact h

/-- The shortest digits that round to a float still denote it. -/
theorem denotes_shortest {x : PyFloat} (hfinite : x.isFinite = true) :
    x.Denotes x.shortest := by
  unfold shortest
  cases hfound : x.decimals.find? fun decimal => x.Denotes decimal with
  | none =>
      rw [Option.getD_none]
      exact denotes_expansion (isFinite_iff.mp hfinite)
  | some decimal =>
      have hdenotes := List.find?_some hfound
      rwa [decide_eq_true_eq] at hdenotes

end PyFloat

namespace NumberText

/-- `float(text)` of a number. -/
def toFloat (number : NumberText) : PyFloat :=
  PyFloat.ofDecimal number.negative (Nat.ofDigitChars 10 (number.whole ++ number.fraction) 0)
    (number.exponent.getD 0 - number.fraction.length)

/-- Lay digits out around a decimal point, with an exponent if the point lies
far away from them. -/
def layout (negative : Bool) (digits : List Char) (point : Int) : NumberText :=
  if -4 < point ∧ point ≤ 16 then
    if point ≤ 0 then
      ⟨negative, ['0'], List.replicate (-point).toNat '0' ++ digits, none⟩
    else if point < digits.length then
      ⟨negative, digits.take point.toNat, digits.drop point.toNat, none⟩
    else
      ⟨negative, digits ++ List.replicate (point - digits.length).toNat '0', ['0'], none⟩
  else ⟨negative, digits.take 1, digits.drop 1, some (point - 1)⟩

def significantDigits (n : Nat) : List Char :=
  (Nat.toDigits 10 n).rdropWhile (· = '0')

/-- `repr(x)` of a finite float. -/
def ofFloat (x : PyFloat) : NumberText :=
  let decimal := x.shortest
  if decimal.1 = 0 then ⟨x.isNegative, ['0'], ['0'], none⟩
  else
    layout x.isNegative (significantDigits decimal.1)
      ((Nat.toDigits 10 decimal.1).length + decimal.2)

/-! ## Reading back what was written -/

section Layout

variable {negative : Bool} {digits : List Char} {point : Int}

/-- Digits without a leading zero. -/
structure Significant (digits : List Char) : Prop where
  ne_nil : digits ≠ []
  head : ∀ c ∈ digits.head?, c ≠ '0'
  digit : ∀ d ∈ digits, d.isDigit = true

theorem Significant.whole (h : Significant digits) {tail : List Char}
    (htail : ∀ d ∈ tail, d.isDigit = true) :
    ∃ c rest, digits ++ tail = c :: rest ∧ c ≠ '0' ∧ c.isDigit = true ∧
      ∀ d ∈ rest, d.isDigit = true := by
  cases digits with
  | nil => exact absurd rfl h.ne_nil
  | cons c rest =>
      refine ⟨c, rest ++ tail, rfl, h.head c rfl, h.digit c List.mem_cons_self, ?_⟩
      intro d hd
      rcases List.mem_append.mp hd with hd | hd
      · exact h.digit d (List.mem_cons_of_mem c hd)
      · exact htail d hd

theorem Significant.take (h : Significant digits) {n : Nat} (hn : 0 < n) :
    Significant (digits.take n) where
  ne_nil := by
    cases digits with
    | nil => exact absurd rfl h.ne_nil
    | cons c rest =>
        rw [List.take_cons hn]
        exact List.cons_ne_nil _ _
  head := by
    intro c hc
    cases digits with
    | nil => exact absurd rfl h.ne_nil
    | cons d rest =>
        rw [List.take_cons hn] at hc
        exact h.head c hc
  digit := fun d hd => h.digit d (List.mem_of_mem_take hd)

theorem isDigit_of_mem_replicate {n : Nat} : ∀ d ∈ List.replicate n '0', d.isDigit = true := by
  intro d hd
  rw [List.eq_of_mem_replicate hd]
  decide

/-- Wherever the point falls, the text spells a number. It may stand before the digits, inside
them or behind them, or give way to an exponent. -/
theorem layout_wellFormed (h : Significant digits) : (layout negative digits point).WellFormed := by
  unfold layout
  split
  next hnear =>
    split
    next hpoint =>
      refine ⟨Or.inl rfl, ?_⟩
      intro d hd
      rcases List.mem_append.mp hd with hd | hd
      · exact isDigit_of_mem_replicate d hd
      · exact h.digit d hd
    next hpoint =>
      split
      next hinside =>
        have hwhole := (h.take (by omega : 0 < point.toNat)).whole (List.forall_mem_nil _)
        rw [List.append_nil] at hwhole
        exact ⟨Or.inr hwhole, fun d hd => h.digit d (List.mem_of_mem_drop hd)⟩
      next houtside =>
        refine ⟨Or.inr (h.whole isDigit_of_mem_replicate), ?_⟩
        intro d hd
        rw [List.mem_singleton.mp hd]
        decide
  next hfar =>
    have hwhole := (h.take Nat.one_pos).whole (List.forall_mem_nil _)
    rw [List.append_nil] at hwhole
    exact ⟨Or.inr hwhole, fun d hd => h.digit d (List.mem_of_mem_drop hd)⟩

/-- A laid out number shows its point or its exponent. -/
theorem layout_toInt? (h : Significant digits) : (layout negative digits point).toInt? = none := by
  have hlength := List.length_pos_iff.mpr h.ne_nil
  unfold layout
  split
  · split
    · simp [toInt?, h.ne_nil]
    · split
      next hpoint hinside =>
        have hdrop : digits.drop point.toNat ≠ [] := by
          rw [ne_eq, List.drop_eq_nil_iff]
          omega
        simp [toInt?, hdrop]
      next => simp [toInt?]
  · simp [toInt?]

/-- Moving the point does not change the number. What it is moved by is made up for by zeros or
by the exponent. -/
theorem layout_toFloat (h : Significant digits) : (layout negative digits point).toFloat =
    PyFloat.ofDecimal negative (Nat.ofDigitChars 10 digits 0) (point - digits.length) := by
  unfold layout
  split
  next hnear =>
    split
    next hpoint =>
      simp only [toFloat, List.cons_append, List.nil_append, List.length_append,
        List.length_replicate, Option.getD_none]
      rw [Nat.ofDigitChars_cons, Nat.ofDigitChars_append, Nat.ofDigitChars_replicate_zero]
      congr 1
      omega
    next hpoint =>
      split
      -- the point stands inside the digits
      next hinside =>
        simp only [toFloat, List.take_append_drop, List.length_drop, Option.getD_none]
        congr 1
        omega
      next houtside =>
        -- the point stands behind the digits, and zeros lead up to it
        have hzeros : Nat.ofDigitChars 10
            (digits ++ List.replicate (point - digits.length).toNat '0' ++ ['0']) 0 =
            Nat.ofDigitChars 10 digits 0 * 10 ^ ((point - digits.length).toNat + 1) := by
          have hreplicate : List.replicate (point - digits.length).toNat '0' ++ ['0'] =
              List.replicate ((point - digits.length).toNat + 1) '0' :=
            List.replicate_succ'.symm
          rw [List.append_assoc, hreplicate, Nat.ofDigitChars_append,
            Nat.ofDigitChars_replicate_zero, Nat.mul_comm]
        simp only [toFloat, hzeros, PyFloat.ofDecimal_shift, Option.getD_none,
          List.length_singleton]
        congr 1
        omega
  next hfar =>
    have hlength := List.length_pos_iff.mpr h.ne_nil
    simp only [toFloat, List.take_append_drop, List.length_drop, Option.getD_some]
    congr 1
    omega

end Layout

/-- The digits that were left out are the trailing zeros. -/
theorem significantDigits_append (n : Nat) :
    significantDigits n ++
      List.replicate ((Nat.toDigits 10 n).length - (significantDigits n).length) '0' =
      Nat.toDigits 10 n := by
  have hsplit : significantDigits n ++ (Nat.toDigits 10 n).rtakeWhile (· = '0') =
      Nat.toDigits 10 n :=
    List.rdropWhile_append_rtakeWhile
  have hlength := congrArg List.length hsplit
  rw [List.length_append] at hlength
  have hzeros : (Nat.toDigits 10 n).rtakeWhile (· = '0') =
      List.replicate ((Nat.toDigits 10 n).length - (significantDigits n).length) '0' := by
    rw [List.eq_replicate_iff]
    refine ⟨by omega, ?_⟩
    intro c hc
    simpa using List.mem_rtakeWhile_imp hc
  rw [← hzeros, hsplit]

/-- Trailing zeros are powers of ten. -/
theorem ofDigitChars_significantDigits (n : Nat) :
    Nat.ofDigitChars 10 (significantDigits n) 0 *
      10 ^ ((Nat.toDigits 10 n).length - (significantDigits n).length) = n := by
  have hvalue := Nat.ofDigitChars_ten_toDigits (n := n)
  rw [← significantDigits_append, Nat.ofDigitChars_append, Nat.ofDigitChars_replicate_zero,
    Nat.mul_comm] at hvalue
  exact hvalue

theorem significant_significantDigits {n : Nat} (hn : n ≠ 0) :
    Significant (significantDigits n) := by
  have happend := significantDigits_append n
  have hne : significantDigits n ≠ [] := by
    intro hnil
    have hvalue := ofDigitChars_significantDigits n
    rw [hnil, Nat.ofDigitChars_nil, Nat.zero_mul] at hvalue
    exact hn hvalue.symm
  refine ⟨hne, ?_, ?_⟩
  · intro c hc
    rcases toDigits_wellFormed n with hzero | ⟨d, rest, hcons, hd, _, _⟩
    · have hvalue := Nat.ofDigitChars_ten_toDigits (n := n)
      rw [hzero] at hvalue
      exact absurd hvalue.symm hn
    · have hhead : (Nat.toDigits 10 n).head? = some c := by
        rw [← happend, List.head?_append, hc, Option.some_or]
      rw [hcons] at hhead
      obtain rfl := Option.some.inj hhead
      exact hd
  · intro d hd
    have hmem : d ∈ Nat.toDigits 10 n := happend ▸ List.mem_append_left _ hd
    exact Nat.isDigit_of_mem_toDigits (by decide) (by decide) hmem

theorem ofFloat_wellFormed (x : PyFloat) : (ofFloat x).WellFormed := by
  unfold ofFloat
  simp only
  split
  · refine ⟨Or.inl rfl, ?_⟩
    intro d hd
    rw [List.mem_singleton.mp hd]
    decide
  next hne => exact layout_wellFormed (significant_significantDigits hne)

theorem ofFloat_toInt? (x : PyFloat) : (ofFloat x).toInt? = none := by
  unfold ofFloat
  simp only
  split
  · rfl
  next hne => exact layout_toInt? (significant_significantDigits hne)

/-- `float(repr(x)) == x`. The digits `repr` takes are chosen to lead back to the number, and
the layout keeps what they stand for. -/
theorem ofFloat_toFloat {x : PyFloat} (hfinite : x.isFinite = true) :
    (ofFloat x).toFloat = x := by
  have hdenotes : PyFloat.ofDecimal x.isNegative x.shortest.1 x.shortest.2 = x :=
    PyFloat.denotes_shortest hfinite
  unfold ofFloat
  simp only
  split
  next hzero =>
    have hpoint : (⟨x.isNegative, ['0'], ['0'], none⟩ : NumberText).toFloat =
        PyFloat.ofDecimal x.isNegative 0 (-1) := rfl
    rw [hpoint, PyFloat.ofDecimal_zero x.isNegative (-1) x.shortest.2, ← hzero, hdenotes]
  next hne =>
    have hshift := PyFloat.ofDecimal_shift x.isNegative
      (Nat.ofDigitChars 10 (significantDigits x.shortest.1) 0)
      ((Nat.toDigits 10 x.shortest.1).length - (significantDigits x.shortest.1).length)
      x.shortest.2
    rw [ofDigitChars_significantDigits, hdenotes] at hshift
    have hle : (significantDigits x.shortest.1).length ≤ (Nat.toDigits 10 x.shortest.1).length := by
      have hlength := congrArg List.length (significantDigits_append x.shortest.1)
      rw [List.length_append] at hlength
      omega
    have hpoint : ((Nat.toDigits 10 x.shortest.1).length : Int) + x.shortest.2 -
        (significantDigits x.shortest.1).length = x.shortest.2 +
        ((Nat.toDigits 10 x.shortest.1).length -
        (significantDigits x.shortest.1).length : Nat) := by
      omega
    rw [layout_toFloat (significant_significantDigits hne), hpoint, ← hshift]

end NumberText

end Python
