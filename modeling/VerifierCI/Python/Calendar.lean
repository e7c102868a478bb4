import VerifierCI.Python.Datetime

/-! # The calendar of datetimes

Readings of the wall clock as year, month, day and time of day. Days are counted
within cycles of 400 years that begin on the first of March, so that the leap
day is the last day of its year.
-/

namespace Python

structure ClockFields where
  year : Nat
  month : Nat
  day : Nat
  hour : Nat
  minute : Nat
  second : Nat
  microsecond : Nat
deriving DecidableEq, Repr

def isLeap (year : Nat) : Bool :=
  year % 4 = 0 && (year % 100 ≠ 0 || year % 400 = 0)

def daysInMonth (year month : Nat) : Nat :=
  if month = 2 then if isLeap year then 29 else 28
  else if month = 4 ∨ month = 6 ∨ month = 9 ∨ month = 11 then 30
  else 31

/-- The ranges the constructor of `datetime` checks. -/
structure ClockFields.Valid (fields : ClockFields) : Prop where
  year : 1 ≤ fields.year ∧ fields.year ≤ 9999
  month : 1 ≤ fields.month ∧ fields.month ≤ 12
  day : 1 ≤ fields.day ∧ fields.day ≤ daysInMonth fields.year fields.month
  hour : fields.hour < 24
  minute : fields.minute < 60
  second : fields.second < 60
  microsecond : fields.microsecond < 1000000

instance (fields : ClockFields) : Decidable fields.Valid :=
  decidable_of_iff ((1 ≤ fields.year ∧ fields.year ≤ 9999) ∧
      (1 ≤ fields.month ∧ fields.month ≤ 12) ∧
      (1 ≤ fields.day ∧ fields.day ≤ daysInMonth fields.year fields.month) ∧
      fields.hour < 24 ∧ fields.minute < 60 ∧ fields.second < 60 ∧ fields.microsecond < 1000000)
    ⟨fun ⟨h₁, h₂, h₃, h₄, h₅, h₆, h₇⟩ => ⟨h₁, h₂, h₃, h₄, h₅, h₆, h₇⟩,
      fun ⟨h₁, h₂, h₃, h₄, h₅, h₆, h₇⟩ => ⟨h₁, h₂, h₃, h₄, h₅, h₆, h₇⟩⟩

/-! ## Days -/

/-- A day within a 400-year cycle: years since the cycle began, and days since
the first of March of that year. -/
structure CycleDay where
  year : Int
  day : Int

/-- Split a day of the cycle into centuries, leap periods and years. The last
century and the last year of a period are a day longer. -/
def CycleDay.ofDays (days : Int) : CycleDay :=
  let century := min (days / 36524) 3
  let ofCentury := days - 36524 * century
  let period := ofCentury / 1461
  let ofPeriod := ofCentury - 1461 * period
  let year := min (ofPeriod / 365) 3
  ⟨100 * century + 4 * period + year, ofPeriod - 365 * year⟩

def CycleDay.toDays (cycleDay : CycleDay) : Int :=
  365 * cycleDay.year + cycleDay.year / 4 - cycleDay.year / 100 + cycleDay.day

def epochDays : Int := 719468

def civilOfDays (days : Int) : Int × Int × Int :=
  let shifted := days + epochDays
  let cycleDay := CycleDay.ofDays (shifted % 146097)
  let march := (5 * cycleDay.day + 2) / 153
  let day := cycleDay.day - (153 * march + 2) / 5 + 1
  let year := shifted / 146097 * 400 + cycleDay.year
  if march < 10 then (year, march + 3, day) else (year + 1, march - 9, day)

/-- The day of a date, counted from the epoch. -/
def daysOfCivil (year month day : Int) : Int :=
  let marchYear := if month ≤ 2 then year - 1 else year
  let march := if month ≤ 2 then month + 9 else month - 3
  let cycleDay : CycleDay := ⟨marchYear % 400, (153 * march + 2) / 5 + day - 1⟩
  marchYear / 400 * 146097 + cycleDay.toDays - epochDays

/-- The estimates of the algorithm for the year and the day in it, within one cycle of four
hundred years. -/
theorem CycleDay.ofDays_spec {days : Int} (hmin : 0 ≤ days) (hmax : days < 146097) :
    (0 ≤ (ofDays days).year ∧ (ofDays days).year < 400) ∧
      (0 ≤ (ofDays days).day ∧ (ofDays days).day ≤ 365) ∧
      ((ofDays days).day = 365 → ((ofDays days).year + 1) % 4 = 0 ∧
        (((ofDays days).year + 1) % 100 = 0 → ((ofDays days).year + 1) % 400 = 0)) ∧
      (ofDays days).toDays = days := by
  simp only [ofDays, toDays]
  generalize hcentury : min (days / 36524) 3 = century
  generalize hperiod : (days - 36524 * century) / 1461 = period
  generalize hyear : min ((days - 36524 * century - 1461 * period) / 365) 3 = year
  have hc : 0 ≤ century ∧ century ≤ 3 ∧ 0 ≤ days - 36524 * century ∧
      days - 36524 * century ≤ 36524 ∧ (century < 3 → days - 36524 * century < 36524) := by
    omega
  have hp : 0 ≤ period ∧ period ≤ 24 ∧ 0 ≤ days - 36524 * century - 1461 * period ∧
      days - 36524 * century - 1461 * period ≤ 1460 := by
    omega
  have hy : 0 ≤ year ∧ year ≤ 3 := by omega
  have hlast : days - 36524 * century - 1461 * period - 365 * year = 365 →
      year = 3 ∧ (period = 24 → century = 3) := by
    omega
  have hquarter : (100 * century + 4 * period + year) / 4 = 25 * century + period := by omega
  have hhundred : (100 * century + 4 * period + year) / 100 = century := by omega
  rw [hquarter, hhundred]
  refine ⟨by omega, by omega, ?_, by omega⟩
  intro hday
  obtain ⟨rfl, hfull⟩ := hlast hday
  refine ⟨by omega, ?_⟩
  intro hcycle
  have hperiod : period = 24 := by omega
  rw [hperiod, hfull hperiod]
  decide

/-- Months are counted from March, so that the day that comes and goes is the last one of the
year. -/
theorem march_spec {day : Int} (hmin : 0 ≤ day) (hmax : day ≤ 365) {march : Int}
    (hmarch : march = (5 * day + 2) / 153) :
    0 ≤ march ∧ march ≤ 11 ∧ 1 ≤ day - (153 * march + 2) / 5 + 1 ∧
      day - (153 * march + 2) / 5 + 1 ≤ 31 ∧
      (march = 1 ∨ march = 3 ∨ march = 6 ∨ march = 8 → day - (153 * march + 2) / 5 + 1 ≤ 30) ∧
      (march = 11 → day - (153 * march + 2) / 5 + 1 ≤ 29 ∧
        (day - (153 * march + 2) / 5 + 1 = 29 → day = 365)) := by
  omega

/-- A day is the day of its own date. Both count from the first of March of year zero, in cycles
of 400 years. -/
theorem daysOfCivil_civilOfDays (days : Int) :
    daysOfCivil (civilOfDays days).1 (civilOfDays days).2.1 (civilOfDays days).2.2 = days := by
  obtain ⟨hyear, hday, _, hround⟩ := CycleDay.ofDays_spec
    (Int.emod_nonneg (days + epochDays) (by decide : (146097 : Int) ≠ 0))
    (Int.emod_lt_of_pos (days + epochDays) (by decide : (0 : Int) < 146097))
  simp only [CycleDay.toDays] at hround
  have hmarch := march_spec hday.1 hday.2 rfl
  have hcycle : ((days + epochDays) / 146097 * 400 +
      (CycleDay.ofDays ((days + epochDays) % 146097)).year) / 400 =
      (days + epochDays) / 146097 := by
    omega
  have hyears : ((days + epochDays) / 146097 * 400 +
      (CycleDay.ofDays ((days + epochDays) % 146097)).year) % 400 =
      (CycleDay.ofDays ((days + epochDays) % 146097)).year := by
    omega
  simp only [civilOfDays]
  split
  next hbefore =>
    simp only [daysOfCivil, CycleDay.toDays]
    rw [if_neg (by omega), if_neg (by omega), hcycle, hyears]
    omega
  next hafter =>
    simp only [daysOfCivil, CycleDay.toDays]
    rw [if_pos (by omega), if_pos (by omega), Int.add_sub_cancel, hcycle, hyears]
    omega

/-- The date of a day within the range of datetimes is a valid one. Years are counted from March
on, so that February comes last and carries the leap day. -/
theorem civilOfDays_valid {days : Int} (hmin : -719162 ≤ days) (hmax : days ≤ 2932896) :
    (1 ≤ (civilOfDays days).1 ∧ (civilOfDays days).1 ≤ 9999) ∧
      (1 ≤ (civilOfDays days).2.1 ∧ (civilOfDays days).2.1 ≤ 12) ∧
      1 ≤ (civilOfDays days).2.2 ∧
      (civilOfDays days).2.2 ≤
        daysInMonth (civilOfDays days).1.toNat (civilOfDays days).2.1.toNat := by
  have hepoch : epochDays = 719468 := rfl
  obtain ⟨hyear, hday, hleap, hround⟩ := CycleDay.ofDays_spec
    (Int.emod_nonneg (days + epochDays) (by decide : (146097 : Int) ≠ 0))
    (Int.emod_lt_of_pos (days + epochDays) (by decide : (0 : Int) < 146097))
  simp only [CycleDay.toDays] at hround
  obtain ⟨hmarch₀, hmarch₁, hday₀, hday₁, hshort, hfebruary⟩ := march_spec hday.1 hday.2 rfl
  simp only [civilOfDays]
  generalize (CycleDay.ofDays ((days + epochDays) % 146097)).day = day at *
  generalize (CycleDay.ofDays ((days + epochDays) % 146097)).year = year at *
  generalize hmarch : (5 * day + 2) / 153 = march at *
  generalize hcycles : (days + epochDays) / 146097 = cycles at *
  split
  next hbefore =>
    dsimp only
    refine ⟨by omega, by omega, hday₀, ?_⟩
    unfold daysInMonth
    rw [if_neg (by omega)]
    split
    next hmonth =>
      have h := hshort (by omega)
      omega
    next hmonth => exact hday₁
  -- January and February end the year that began in March, so a leap day is its last.
  next hafter =>
    dsimp only
    refine ⟨by omega, by omega, hday₀, ?_⟩
    unfold daysInMonth
    split
    next htwo =>
      obtain ⟨hle, hlast⟩ := hfebruary (by omega)
      split
      next hleapYear => exact hle
      next hcommon =>
        by_contra hover
        obtain ⟨hfour, hhundred⟩ := hleap (hlast (by omega))
        simp only [isLeap, Bool.and_eq_true, Bool.or_eq_true, decide_eq_true_eq] at hcommon
        omega
    next htwo =>
      rw [if_neg (by omega)]
      exact hday₁

/-! ## Readings -/

def fieldsOfMicros (micros : Int) : ClockFields :=
  let date := civilOfDays (micros / 86400000000)
  let time := (micros % 86400000000).toNat
  { year := date.1.toNat
    month := date.2.1.toNat
    day := date.2.2.toNat
    hour := time / 3600000000
    minute := time / 60000000 % 60
    second := time / 1000000 % 60
    microsecond := time % 1000000 }

def ClockFields.micros (fields : ClockFields) : Int :=
  daysOfCivil fields.year fields.month fields.day * 86400000000 +
    (((fields.hour * 60 + fields.minute) * 60 + fields.second) * 1000000 +
      fields.microsecond : Nat)

/-- Every datetime within bounds has proper calendar and clock fields. -/
theorem fieldsOfMicros_valid {micros : Int} (h : minMicros ≤ micros ∧ micros ≤ maxMicros) :
    (fieldsOfMicros micros).Valid := by
  have hmin : minMicros = -62135596800000000 := rfl
  have hmax : maxMicros = 253402300799999999 := rfl
  obtain ⟨hyear, hmonth, hday₀, hday₁⟩ := civilOfDays_valid
    (by omega : -719162 ≤ micros / 86400000000) (by omega)
  refine ⟨?_, ?_, ?_, ?_, ?_, ?_, ?_⟩
  · simp only [fieldsOfMicros]
    omega
  · simp only [fieldsOfMicros]
    omega
  · simp only [fieldsOfMicros]
    omega
  · simp only [fieldsOfMicros]
    omega
  · exact Nat.mod_lt _ (by decide)
  · exact Nat.mod_lt _ (by decide)
  · exact Nat.mod_lt _ (by decide)

/-- A reading is the reading of its own fields. -/
theorem micros_fieldsOfMicros {micros : Int} (h : minMicros ≤ micros ∧ micros ≤ maxMicros) :
    (fieldsOfMicros micros).micros = micros := by
  have hmin : minMicros = -62135596800000000 := rfl
  have hmax : maxMicros = 253402300799999999 := rfl
  obtain ⟨hyear, hmonth, hday₀, _⟩ := civilOfDays_valid
    (by omega : -719162 ≤ micros / 86400000000) (by omega)
  have hround := daysOfCivil_civilOfDays (micros / 86400000000)
  simp only [ClockFields.micros, fieldsOfMicros]
  rw [Int.toNat_of_nonneg (by omega), Int.toNat_of_nonneg (by omega),
    Int.toNat_of_nonneg (by omega), hround]
  omega

end Python
