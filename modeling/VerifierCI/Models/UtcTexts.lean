import VerifierCI.Models.Conversion
import VerifierCI.Models.Encoding

/-! # Reading UTC texts back

The encoder writes a datetime in UTC with a `Z`, and with a year that is not padded.
The decoder replaces the `Z` and reads the text if its year has four digits.
-/

namespace VerifierCI

open Python

/-! ## Years -/

/-- A number with as many digits as the width needs no padding. -/
theorem padded_eq_toDigits {width n : Nat} (hmin : 10 ^ width ≤ n) (hmax : n < 10 ^ (width + 1)) :
    padded (width + 1) n = Nat.toDigits 10 n := by
  induction width generalizing n with
  | zero =>
      have hdigit : n < 10 := by simpa using hmax
      rw [padded, padded, Nat.mod_eq_of_lt hdigit, Nat.toDigits_of_lt_base hdigit, List.nil_append]
  | succ width ih =>
      have hten : 10 ≤ n := by
        apply le_trans _ hmin
        exact Nat.le_self_pow (Nat.succ_ne_zero width) 10
      have hquot : 10 ^ width ≤ n / 10 := by
        rw [Nat.le_div_iff_mul_le (by decide), ← pow_succ]
        exact hmin
      have hquot' : n / 10 < 10 ^ (width + 1) := by
        rw [Nat.div_lt_iff_lt_mul (by decide), ← pow_succ]
        exact hmax
      rw [padded, ih hquot hquot', Nat.toDigits_of_base_le (by decide) hten]

theorem astimezoneUtc?_utcoffset {value utc : Datetime} (h : value.astimezoneUtc? = some utc) :
    utc.utcoffset = some 0 := by
  simp only [Datetime.astimezoneUtc?] at h
  split at h
  · obtain rfl := Option.some.inj h
    rfl
  · cases h

/-- A datetime in UTC is left as it is. -/
theorem astimezoneUtc?_eq_self {value : Datetime} (hutc : value.utcoffset = some 0) :
    value.astimezoneUtc? = some value := by
  obtain ⟨micros, utcoffset, hmicros, hoffset⟩ := value
  obtain rfl := hutc
  have hinstant : micros - (some (0 : Int)).getD 0 = micros := Int.sub_zero micros
  simp only [Datetime.astimezoneUtc?, hinstant]
  rw [dif_pos hmicros]

/-- The year of a datetime in UTC has four digits: it can be read back. -/
def hasLongYear (value : Datetime) : Bool :=
  value.astimezoneUtc?.any fun utc => 1000 ≤ (fieldsOfMicros utc.micros).year

/-! ## Replacing the `Z` -/

theorem zulu_not_mem_padded (width n : Nat) : 'Z' ∉ padded width n := by
  intro hmem
  exact absurd (List.all_eq_true.mp (padded_digits width n) 'Z' hmem) (by decide)

theorem zulu_not_mem_toDigits (n : Nat) : 'Z' ∉ Nat.toDigits 10 n := by
  intro hmem
  exact absurd (Nat.isDigit_of_mem_toDigits (by decide) (by decide) hmem) (by decide)

/-- Only the mark of UTC is a `Z` in an ISO text. -/
theorem zulu_not_mem_isoText {year : List Char} (hyear : 'Z' ∉ year) (fields : ClockFields) :
    'Z' ∉ fields.isoText year := by
  have htime : 'Z' ∉ fields.timeText ++ fields.fractionText := by
    intro hmem
    exact absurd (IsoText.no_zoneMark fields 'Z' hmem) (by decide)
  rw [List.mem_append, not_or] at htime
  simp only [ClockFields.isoText, List.mem_append, List.mem_cons, not_or]
  exact ⟨hyear, by decide, zulu_not_mem_padded _ _, by decide, zulu_not_mem_padded _ _, by decide,
    htime⟩

theorem replaceZ_map {text : List Char} (h : 'Z' ∉ text) :
    replaceZ (text.map codePoint) = text.map codePoint := by
  induction text with
  | nil => rfl
  | cons c rest ih =>
      rw [List.mem_cons, not_or] at h
      have hc : codePoint c ≠ codePoint 'Z' := fun heq => h.1 (codePoint_injective heq).symm
      rw [List.map_cons, replaceZ, List.flatMap_cons, if_neg hc]
      exact congrArg (codePoint c :: ·) (ih h.2)

/-- What the decoder makes of a UTC text is the text with its offset written out. -/
theorem replaceZ_utcText (value : Datetime) :
    replaceZ ((utcText value).map codePoint) =
      ((fieldsOfMicros value.micros).isoText
        (Nat.toDigits 10 (fieldsOfMicros value.micros).year) ++ offsetText 0).map codePoint := by
  have hoffset : offsetText 0 = "+00:00".toList := by decide
  have htext := zulu_not_mem_isoText (zulu_not_mem_toDigits (fieldsOfMicros value.micros).year)
    (fieldsOfMicros value.micros)
  rw [utcText, List.map_append, List.map_append, replaceZ, List.flatMap_append, ← replaceZ,
    replaceZ_map htext, hoffset]
  rfl

section Read

variable {interpreter : Interpreter} {utc : Datetime}

/-- A written time has one `Z`, at its end, and comes back as the same instant in UTC. -/
theorem fromIsoformat_utcText (hutc : utc.utcoffset = some 0)
    (hyear : 1000 ≤ (fieldsOfMicros utc.micros).year) :
    interpreter.fromIsoformat (replaceZ ((utcText utc).map codePoint)) = some utc := by
  have hvalid := fieldsOfMicros_valid utc.micros_mem
  have hdigits : padded 4 (fieldsOfMicros utc.micros).year =
      Nat.toDigits 10 (fieldsOfMicros utc.micros).year :=
    padded_eq_toDigits hyear (Nat.lt_succ_of_le hvalid.year.2)
  have hiso := interpreter.reads_isoformat utc hutc
  rw [Datetime.isoformat, hutc] at hiso
  rw [replaceZ_utcText, ← hdigits]
  exact hiso

/-- A year of fewer than four digits is written without padding and cannot be read back. -/
theorem fromIsoformat_utcText_short (hyear : (fieldsOfMicros utc.micros).year < 1000) :
    interpreter.fromIsoformat (replaceZ ((utcText utc).map codePoint)) = none := by
  have hdigits : (Nat.toDigits 10 (fieldsOfMicros utc.micros).year).length < 4 := by
    rw [Nat.lt_succ_iff, Nat.length_toDigits_le_iff (by decide) (by decide)]
    exact hyear
  rw [replaceZ_utcText, ClockFields.isoText, List.append_assoc, List.cons_append]
  exact interpreter.refuses_short _ _ hdigits

/-- The text of a datetime is read back as the datetime in UTC, if its year is long. -/
theorem convert_utcText {value : Datetime} {converted : Value}
    (hutc : value.astimezoneUtc? = some utc) :
    convertField interpreter .datetime (.str ((utcText utc).map codePoint)) = .ok converted ↔
      hasLongYear value = true ∧ .datetime utc = converted := by
  have hoffset := astimezoneUtc?_utcoffset hutc
  rw [hasLongYear, hutc, Option.any_some, decide_eq_true_eq, convertField_datetime_ok_iff]
  constructor
  · rintro ⟨text, date, ⟨⟩, hdate, _, rfl⟩
    by_cases hyear : 1000 ≤ (fieldsOfMicros utc.micros).year
    · rw [fromIsoformat_utcText hoffset hyear] at hdate
      obtain rfl := Option.some.inj hdate
      exact ⟨hyear, rfl⟩
    · rw [fromIsoformat_utcText_short (not_le.mp hyear)] at hdate
      cases hdate
  · rintro ⟨hyear, rfl⟩
    exact ⟨_, utc, rfl, fromIsoformat_utcText hoffset hyear, by rw [hoffset, Option.isSome_some],
      rfl⟩

end Read

end VerifierCI
