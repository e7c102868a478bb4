import VerifierCI.Python.IsoFormat
import VerifierCI.Python.WideJson

/-! # `datetime.fromisoformat`

ISO 8601 texts of dates and times: calendar and week dates, with or without separators,
any one character before the time, and an offset from UTC.
-/

namespace Python

namespace IsoText

def takeDigits (width : Nat) (text : List Char) : Option (Nat × List Char) :=
  let digits := text.take width
  if digits.length = width ∧ digits.all Char.isDigit = true then
    some (Nat.ofDigitChars 10 digits 0, text.drop width)
  else none

/-- The text behind a separator that stands there if it is used at all. -/
def dropSeparator (separator : Char) (used : Bool) : List Char → Option (List Char)
  | c :: rest =>
      if c = separator then if used then some rest else none
      else if used then none else some (c :: rest)
  | [] => if used then none else some []

/-! ## Dates -/

/-- Monday is zero. -/
def weekday (days : Int) : Int :=
  (days + 3) % 7

def daysOfWeekDate (year week day : Nat) : Option Int :=
  let first := daysOfCivil year 1 1
  let monday := first - weekday first + if 3 < weekday first then 7 else 0
  let long := weekday first = 3 ∨ weekday first = 2 ∧ isLeap year = true
  if (1 ≤ week ∧ week ≤ 52 ∨ week = 53 ∧ long) ∧ 1 ≤ day ∧ day ≤ 7 then
    some (monday + (week - 1) * 7 + day - 1)
  else none

def daysOfDate (year month day : Nat) : Option Int :=
  if 1 ≤ month ∧ month ≤ 12 ∧ 1 ≤ day ∧ day ≤ daysInMonth year month then
    some (daysOfCivil year month day)
  else none

def readDate (text : List Char) : Option Int := do
  let (year, rest) ← takeDigits 4 text
  let dashed := rest.head? == some '-'
  let rest ← dropSeparator '-' dashed rest
  match rest with
  | 'W' :: rest => do
      let (week, rest) ← takeDigits 2 rest
      if rest.isEmpty then daysOfWeekDate year week 1
      else do
        let rest ← dropSeparator '-' dashed rest
        let (day, rest) ← takeDigits 1 rest
        if rest.isEmpty then daysOfWeekDate year week day else none
  | rest => do
      let (month, rest) ← takeDigits 2 rest
      let rest ← dropSeparator '-' dashed rest
      let (day, rest) ← takeDigits 2 rest
      if rest.isEmpty then daysOfDate year month day else none

/-- Where the date ends. The separator may be any character, so its place follows from
the form of the date. -/
def dateLength (text : List Char) : Option Nat :=
  if text.length = 7 then some 7
  else if text[4]? = some '-' then
    if text[5]? = some 'W' then
      if text[8]? = some '-' then
        if text.length = 9 then none
        else if text[10]?.any Char.isDigit = true then some 8 else some 10
      else some 8
    else some 10
  else if text[4]? = some 'W' then
    let digits := 7 + ((text.drop 7).takeWhile Char.isDigit).length
    if digits < 9 then some digits else if digits % 2 = 0 then some 7 else some 8
  else some 8

/-! ## Times -/

def readFraction : List Char → Option Nat
  | [] => some 0
  | c :: digits =>
      if (c = '.' ∨ c = ',') ∧ digits ≠ [] ∧ digits.all Char.isDigit = true then
        some (Nat.ofDigitChars 10 ((digits ++ List.replicate 5 '0').take 6) 0)
      else none

def readClock (text : List Char) : Option (Nat × Nat × Nat × Nat) := do
  let (hour, rest) ← takeDigits 2 text
  let colons := rest.head? == some ':'
  if rest.isEmpty then some (hour, 0, 0, 0)
  else do
    let rest ← dropSeparator ':' colons rest
    let (minute, rest) ← takeDigits 2 rest
    if rest.isEmpty then some (hour, minute, 0, 0)
    else do
      let rest ← dropSeparator ':' colons rest
      let (second, rest) ← takeDigits 2 rest
      let microsecond ← readFraction rest
      some (hour, minute, second, microsecond)

def microsOfClock (clock : Nat × Nat × Nat × Nat) : Nat :=
  ((clock.1 * 60 + clock.2.1) * 60 + clock.2.2.1) * 1000000 + clock.2.2.2

def isZoneMark (c : Char) : Bool :=
  c == '+' || c == '-' || c == 'Z'

/-- The offset from UTC, `none` for a text without one. -/
def readZone : List Char → Option (Option Int)
  | [] => some none
  | 'Z' :: rest => if rest.isEmpty then some (some 0) else none
  | mark :: rest => do
      let clock ← readClock rest
      let offset : Int := if mark = '-' then -microsOfClock clock else microsOfClock clock
      if -86400000000 < offset ∧ offset < 86400000000 then some (some offset) else none

/-- A time of day in microseconds, and the offset behind it. -/
def readTime (text : List Char) : Option (Nat × Option Int) := do
  let clock ← readClock (text.takeWhile fun c => !isZoneMark c)
  let offset ← readZone (text.dropWhile fun c => !isZoneMark c)
  if clock.1 < 24 ∧ clock.2.1 < 60 ∧ clock.2.2.1 < 60 then some (microsOfClock clock, offset)
  else none

end IsoText

/-- The constructor of `datetime`, which checks its ranges. -/
def Datetime.of? (micros : Int) (utcoffset : Option Int) : Option Datetime :=
  if h : (minMicros ≤ micros ∧ micros ≤ maxMicros) ∧
      ∀ offset ∈ utcoffset, -86400000000 < offset ∧ offset < 86400000000 then
    some ⟨micros, utcoffset, h.1, h.2⟩
  else none

open IsoText in
/-- `datetime.fromisoformat(text)`, or `none` for a `ValueError`. -/
def fromIsoformat (text : List Char) : Option Datetime := do
  if text.length < 7 then none
  else do
    let length ← dateLength text
    let days ← readDate (text.take length)
    let (time, offset) ←
      if (text.drop (length + 1)).isEmpty then some (0, none) else readTime (text.drop (length + 1))
    Datetime.of? (days * 86400000000 + time) offset

/-- The text with its surrogates, which may stand before the time like any character. -/
def fromIsoformatWide (text : WideString) : Option Datetime :=
  fromIsoformat (text.map fun p => p.char?.getD replacementCharacter)

/-! ## What `isoformat` wrote -/

@[simp] theorem padded_length (width n : Nat) : (padded width n).length = width := by
  induction width generalizing n with
  | zero => rfl
  | succ width ih => rw [padded, List.length_append, ih, List.length_singleton]

theorem isDigit_digitChar {n : Nat} (h : n < 10) : n.digitChar.isDigit = true := by
  have hall : ∀ n < 10, n.digitChar.isDigit = true := by decide
  exact hall n h

theorem padded_digits (width n : Nat) : (padded width n).all Char.isDigit = true := by
  induction width generalizing n with
  | zero => rfl
  | succ width ih =>
      rw [padded, List.all_append, ih, List.all_cons,
        isDigit_digitChar (Nat.mod_lt n (by decide))]
      rfl

/-- Padding with zeros does not change the number. -/
theorem ofDigitChars_padded {width n : Nat} (h : n < 10 ^ width) :
    Nat.ofDigitChars 10 (padded width n) 0 = n := by
  induction width generalizing n with
  | zero =>
      rw [pow_zero, Nat.lt_one_iff] at h
      rw [h]
      rfl
  | succ width ih =>
      have hquot : n / 10 < 10 ^ width := by
        rw [pow_succ] at h
        omega
      rw [padded, Nat.ofDigitChars_append, ih hquot]
      rw [Nat.ofDigitChars_cons_digitChar_of_lt_ten (Nat.mod_lt n (by decide)),
        Nat.ofDigitChars_nil]
      omega

namespace IsoText

theorem takeDigits_padded {width n : Nat} (h : n < 10 ^ width) (rest : List Char) :
    takeDigits width (padded width n ++ rest) = some (n, rest) := by
  have htake : (padded width n ++ rest).take width = padded width n := by
    rw [List.take_append_of_le_length (padded_length width n).ge,
      List.take_of_length_le (padded_length width n).le]
  have hdrop : (padded width n ++ rest).drop width = rest :=
    List.drop_left' (padded_length width n)
  simp only [takeDigits, htake, hdrop, padded_length, padded_digits, true_and, if_true,
    ofDigitChars_padded h]

theorem dropSeparator_used (c : Char) (rest : List Char) :
    dropSeparator c true (c :: rest) = some rest := by
  simp [dropSeparator]

/-- A padded number begins with a digit. -/
theorem padded_head (width n : Nat) (rest : List Char) :
    ∃ c tail, padded (width + 1) n ++ rest = c :: tail ∧ c.isDigit = true := by
  have hlength := padded_length (width + 1) n
  have hdigits := padded_digits (width + 1) n
  cases h : padded (width + 1) n with
  | nil => rw [h] at hlength; cases hlength
  | cons c tail =>
      rw [h, List.all_cons, Bool.and_eq_true] at hdigits
      exact ⟨c, tail ++ rest, rfl, hdigits.1⟩

/-- The date of valid fields is read as the day they stand for. Each field is padded to its
width, so each is read from as many digits as were written. -/
theorem readDate_text {fields : ClockFields} (h : fields.Valid) :
    readDate (padded 4 fields.year ++ '-' ::
      (padded 2 fields.month ++ '-' :: padded 2 fields.day)) =
      some (daysOfCivil fields.year fields.month fields.day) := by
  have hyear := h.year
  have hmonth := h.month
  have hday := h.day
  have hlong : daysInMonth fields.year fields.month ≤ 31 := by
    unfold daysInMonth
    split_ifs <;> omega
  have hdays := takeDigits_padded (by omega : fields.day < 10 ^ 2) []
  rw [List.append_nil] at hdays
  obtain ⟨c, tail, hcons, hdigit⟩ := padded_head 1 fields.month ('-' :: padded 2 fields.day)
  have hmonths := takeDigits_padded (by omega : fields.month < 10 ^ 2) ('-' :: padded 2 fields.day)
  simp only [readDate, takeDigits_padded (by omega : fields.year < 10 ^ 4), Option.bind_eq_bind,
    Option.bind_some, List.head?_cons, BEq.rfl, dropSeparator_used]
  rw [hcons] at hmonths ⊢
  split
  next hw =>
    rw [(List.cons.inj hw).1] at hdigit
    exact absurd hdigit (by decide)
  next =>
    simp only [hmonths, Option.bind_some, dropSeparator_used, hdays, List.isEmpty_nil, if_true,
      daysOfDate]
    rw [if_pos ⟨hmonth.1, hmonth.2, hday.1, hday.2⟩]

theorem readFraction_text {fields : ClockFields} (h : fields.Valid) :
    readFraction fields.fractionText = some fields.microsecond := by
  unfold ClockFields.fractionText
  split
  next hzero => rw [hzero]; rfl
  next =>
    have hlength := padded_length 6 fields.microsecond
    have hne : padded 6 fields.microsecond ≠ [] := by
      intro hnil
      rw [hnil] at hlength
      cases hlength
    rw [readFraction, if_pos ⟨Or.inl rfl, hne, padded_digits _ _⟩,
      List.take_append_of_le_length hlength.ge, List.take_of_length_le hlength.le,
      ofDigitChars_padded h.microsecond]

theorem readClock_text {fields : ClockFields} (h : fields.Valid) :
    readClock (fields.timeText ++ fields.fractionText) =
      some (fields.hour, fields.minute, fields.second, fields.microsecond) := by
  have hhour := h.hour
  have hminute := h.minute
  have hsecond := h.second
  simp only [readClock, ClockFields.timeText, List.append_assoc, List.cons_append,
    takeDigits_padded (by omega : fields.hour < 10 ^ 2),
    takeDigits_padded (by omega : fields.minute < 10 ^ 2),
    takeDigits_padded (by omega : fields.second < 10 ^ 2), Option.bind_eq_bind, Option.bind_some,
    List.head?_cons, BEq.rfl, List.isEmpty_cons, Bool.false_eq_true, if_false, dropSeparator_used,
    readFraction_text h]

/-- Nothing in a time of day looks like the mark of an offset. -/
theorem no_zoneMark (fields : ClockFields) :
    ∀ c ∈ fields.timeText ++ fields.fractionText, (!isZoneMark c) = true := by
  have hdigit : ∀ {c : Char}, c.isDigit = true → (!isZoneMark c) = true := by
    intro c hc
    simp only [isZoneMark, Bool.not_eq_true', Bool.or_eq_false_iff, beq_eq_false_iff_ne]
    refine ⟨⟨?_, ?_⟩, ?_⟩ <;> (rintro rfl; exact absurd hc (by decide))
  have hpadded : ∀ (width n : Nat), ∀ c ∈ padded width n, (!isZoneMark c) = true :=
    fun width n c hc => hdigit (List.all_eq_true.mp (padded_digits width n) c hc)
  have hcolon : (!isZoneMark ':') = true := by decide
  have hfraction : ∀ c ∈ fields.fractionText, (!isZoneMark c) = true := by
    unfold ClockFields.fractionText
    split
    · nofun
    · exact List.forall_mem_cons.mpr ⟨by decide, hpadded _ _⟩
  rw [ClockFields.timeText]
  simp only [List.forall_mem_append, List.forall_mem_cons]
  exact ⟨⟨hpadded _ _, hcolon, hpadded _ _, hcolon, hpadded _ _⟩, hfraction⟩

/-- A time that was written with its offset is read back with it. -/
theorem readTime_text {fields : ClockFields} (h : fields.Valid) :
    readTime (fields.timeText ++ fields.fractionText ++ offsetText 0) =
      some (microsOfClock (fields.hour, fields.minute, fields.second, fields.microsecond),
        some 0) := by
  have hoffset : offsetText 0 = ['+', '0', '0', ':', '0', '0'] := by decide
  have hzone : readZone (offsetText 0) = some (some 0) := by decide
  have htake : (fields.timeText ++ fields.fractionText ++ offsetText 0).takeWhile
      (fun c => !isZoneMark c) = fields.timeText ++ fields.fractionText := by
    rw [List.takeWhile_append_of_pos (no_zoneMark fields), hoffset]
    exact List.append_nil _
  have hdrop : (fields.timeText ++ fields.fractionText ++ offsetText 0).dropWhile
      (fun c => !isZoneMark c) = offsetText 0 := by
    rw [List.dropWhile_append_of_pos (no_zoneMark fields), hoffset]
    rfl
  simp only [readTime, htake, hdrop, hzone, readClock_text h, Option.bind_eq_bind,
    Option.bind_some]
  rw [if_pos ⟨h.hour, h.minute, h.second⟩]

end IsoText

open IsoText

theorem dateLength_text {year : List Char} {c : Char} {rest : List Char} (hyear : year.length = 4)
    (hc : c.isDigit = true) (hrest : 2 < rest.length) :
    dateLength (year ++ '-' :: c :: rest) = some 10 := by
  have hdash : (year ++ '-' :: c :: rest)[4]? = some '-' := by
    rw [List.getElem?_append_right hyear.le, hyear]
    rfl
  have hnext : (year ++ '-' :: c :: rest)[5]? = some c := by
    rw [List.getElem?_append_right (by omega), hyear]
    rfl
  have hw : c ≠ 'W' := by
    rintro rfl
    exact absurd hc (by decide)
  unfold dateLength
  rw [hdash, hnext, if_neg (by simp [hyear]; omega), if_pos rfl,
    if_neg (fun heq => hw (Option.some.inj heq))]

/-- `fromisoformat` undoes `isoformat` on readings in UTC. The text is cut behind the date, and
date and time are read apart. -/
theorem fromIsoformat_isoformat {value : Datetime} (hutc : value.utcoffset = some 0) :
    fromIsoformat value.isoformat = some value := by
  obtain ⟨micros, utcoffset, hmicros, hoffset⟩ := value
  obtain rfl := hutc
  have hvalid := fieldsOfMicros_valid hmicros
  have hround := micros_fieldsOfMicros hmicros
  generalize hfields : fieldsOfMicros micros = fields at hvalid hround
  have htext : Datetime.isoformat ⟨micros, some 0, hmicros, hoffset⟩ =
      (padded 4 fields.year ++ '-' :: (padded 2 fields.month ++ '-' :: padded 2 fields.day)) ++
        'T' :: (fields.timeText ++ fields.fractionText ++ offsetText 0) := by
    simp only [Datetime.isoformat, hfields, ClockFields.isoText, List.append_assoc,
      List.cons_append]
  have hten : (padded 4 fields.year ++ '-' :: (padded 2 fields.month ++ '-' ::
      padded 2 fields.day)).length = 10 := by
    simp
  -- A dash follows the year and a digit the dash, so the date takes ten characters.
  have hdate : dateLength (padded 4 fields.year ++ '-' :: (padded 2 fields.month ++ '-' ::
      padded 2 fields.day) ++ 'T' :: (fields.timeText ++ fields.fractionText ++ offsetText 0)) =
      some 10 := by
    obtain ⟨c, tail, hcons, hdigit⟩ := padded_head 1 fields.month ('-' :: padded 2 fields.day ++
      'T' :: (fields.timeText ++ fields.fractionText ++ offsetText 0))
    have hlength := congrArg List.length hcons
    rw [List.append_assoc, List.cons_append, List.append_assoc, hcons]
    apply dateLength_text (padded_length 4 _) hdigit
    simp only [List.length_append, List.length_cons, padded_length] at hlength
    omega
  have htime : (fields.timeText ++ fields.fractionText ++ offsetText 0).isEmpty = false := by
    simp [ClockFields.timeText]
  have hlong : ¬ (padded 4 fields.year ++ '-' :: (padded 2 fields.month ++ '-' ::
      padded 2 fields.day) ++ 'T' :: (fields.timeText ++ fields.fractionText ++
        offsetText 0)).length < 7 := by
    rw [List.length_append, hten]
    omega
  have htake : (padded 4 fields.year ++ '-' :: (padded 2 fields.month ++ '-' ::
      padded 2 fields.day) ++ 'T' :: (fields.timeText ++ fields.fractionText ++
        offsetText 0)).take 10 = padded 4 fields.year ++ '-' :: (padded 2 fields.month ++ '-' ::
          padded 2 fields.day) :=
    List.take_left' hten
  have hdrop : (padded 4 fields.year ++ '-' :: (padded 2 fields.month ++ '-' ::
      padded 2 fields.day) ++ 'T' :: (fields.timeText ++ fields.fractionText ++
        offsetText 0)).drop (10 + 1) = fields.timeText ++ fields.fractionText ++ offsetText 0 := by
    rw [← List.drop_drop, List.drop_left' hten]
    rfl
  have hmicros' : daysOfCivil fields.year fields.month fields.day * 86400000000 +
      (microsOfClock (fields.hour, fields.minute, fields.second, fields.microsecond) : Nat) =
      micros := hround
  -- With the two halves cut apart, each is read by its own lemma.
  rw [htext]
  simp only [fromIsoformat, if_neg hlong, hdate, htake, hdrop, readDate_text hvalid, htime,
    Bool.false_eq_true, if_false, readTime_text hvalid, Option.bind_eq_bind, Option.bind_some,
    hmicros']
  exact dif_pos ⟨hmicros, hoffset⟩

theorem dateLength_ge {text : List Char} {length : Nat} (h : dateLength text = some length) :
    7 ≤ length := by
  simp only [dateLength] at h
  split_ifs at h
  all_goals
    obtain rfl := Option.some.inj h
    omega

/-- A year of fewer than four digits is refused. -/
theorem fromIsoformat_short {year : List Char} (hyear : year.length < 4) (rest : List Char) :
    fromIsoformat (year ++ '-' :: rest) = none := by
  unfold fromIsoformat
  split
  · rfl
  · cases hlength : dateLength (year ++ '-' :: rest) with
    | none => rfl
    | some length =>
        have hge := dateLength_ge hlength
        have hdigits : takeDigits 4 ((year ++ '-' :: rest).take length) = none := by
          rw [takeDigits, List.take_take, Nat.min_eq_left (by omega)]
          apply if_neg
          rintro ⟨_, hall⟩
          have hmem : '-' ∈ (year ++ '-' :: rest).take 4 := by
            rw [List.mem_take_iff_getElem]
            exact ⟨year.length, by simp; omega, by simp⟩
          exact absurd (List.all_eq_true.mp hall '-' hmem) (by decide)
        simp only [readDate, hdigits, Option.bind_eq_bind, Option.bind_some, Option.bind_none]

theorem char?_codePoint (c : Char) : (codePoint c).char? = some c := by
  have hval : (codePoint c).val = c.toNat := rfl
  rw [CodePoint.char?, isSurrogate_codePoint, if_neg Bool.false_ne_true, hval, Char.ofNat_toNat]

/-- On texts without surrogates the two readers agree. -/
theorem fromIsoformatWide_map (text : List Char) :
    fromIsoformatWide (text.map codePoint) = fromIsoformat text := by
  rw [fromIsoformatWide, List.map_map]
  congr 1
  conv => rhs; rw [← List.map_id text]
  apply List.map_congr_left
  intro c _
  simp [char?_codePoint]

end Python
