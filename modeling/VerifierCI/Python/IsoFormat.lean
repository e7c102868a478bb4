import VerifierCI.Python.Calendar

/-! # ISO texts of datetimes -/

namespace Python

def padded : Nat → Nat → List Char
  | 0, _ => []
  | width + 1, n => padded width (n / 10) ++ [(n % 10).digitChar]

namespace ClockFields

/-- `HH:MM:SS`. -/
def timeText (fields : ClockFields) : List Char :=
  padded 2 fields.hour ++ ':' :: (padded 2 fields.minute ++ ':' :: padded 2 fields.second)

/-- The microseconds, if there are any. -/
def fractionText (fields : ClockFields) : List Char :=
  if fields.microsecond = 0 then [] else '.' :: padded 6 fields.microsecond

/-- `-MM-DDTHH:MM:SS` with a fraction, behind the given year. -/
def isoText (year : List Char) (fields : ClockFields) : List Char :=
  year ++ '-' :: (padded 2 fields.month ++ '-' :: (padded 2 fields.day ++ 'T' ::
    (fields.timeText ++ fields.fractionText)))

end ClockFields

/-- `+HH:MM`, with seconds and microseconds where the offset has them. -/
def offsetText (offset : Int) : List Char :=
  let total := offset.natAbs
  let seconds := total / 1000000 % 60
  let micros := total % 1000000
  (if offset < 0 then '-' else '+') :: (padded 2 (total / 3600000000) ++ ':' ::
    (padded 2 (total / 60000000 % 60) ++
      if seconds = 0 ∧ micros = 0 then []
      else ':' :: (padded 2 seconds ++ if micros = 0 then [] else '.' :: padded 6 micros)))

namespace Datetime

/-- `value.isoformat()`. -/
def isoformat (value : Datetime) : List Char :=
  let fields := fieldsOfMicros value.micros
  fields.isoText (padded 4 fields.year) ++
    match value.utcoffset with
    | none => []
    | some offset => offsetText offset

end Datetime

end Python
