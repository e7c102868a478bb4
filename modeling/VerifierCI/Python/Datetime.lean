import Mathlib.Tactic.Common

/-! # Datetimes

A datetime is a wall-clock reading in microseconds since 1970-01-01T00:00:00
with an optional offset from UTC, both within the bounds of the `datetime`
type. `isoformat` and `fromisoformat` are inverse on these values, so a stored
ISO text is represented by the datetime it spells.
-/

namespace Python

def minMicros : Int := -62135596800000000

def maxMicros : Int := 253402300799999999

structure Datetime where
  micros : Int
  utcoffset : Option Int
  micros_mem : minMicros ≤ micros ∧ micros ≤ maxMicros := by decide
  utcoffset_mem : ∀ offset ∈ utcoffset, -86400000000 < offset ∧ offset < 86400000000 := by decide
deriving DecidableEq, Repr

namespace Datetime

theorem utc_mem : ∀ offset ∈ (some 0 : Option Int),
    -86400000000 < offset ∧ offset < 86400000000 := by
  decide

theorem zero_mem : minMicros ≤ 0 ∧ 0 ≤ maxMicros := by
  decide

/-- `datetime.fromtimestamp(ms / 1000.0, UTC)`. It raises outside the years 1
to 9999. The float division is exact to the microsecond on contemporary
readings and within a few microseconds at the far end of the range; the model
keeps the millisecond it was given. -/
def fromTimestampMs? (ms : Int) : Option Datetime :=
  if h : minMicros ≤ ms * 1000 ∧ ms * 1000 ≤ maxMicros then
    some { micros := ms * 1000, utcoffset := some 0, micros_mem := h, utcoffset_mem := utc_mem }
  else none

/-- `value.replace(tzinfo=UTC)` on a naive value, the value itself otherwise. -/
def assumeUtc (value : Datetime) : Datetime :=
  match value.utcoffset with
  | some _ => value
  | none =>
      { micros := value.micros
        utcoffset := some 0
        micros_mem := value.micros_mem
        utcoffset_mem := utc_mem }

/-- `value.astimezone(UTC)` on an aware value. It raises when the instant lies
outside the range of datetimes. -/
def astimezoneUtc? (value : Datetime) : Option Datetime :=
  let instant := value.micros - value.utcoffset.getD 0
  if h : minMicros ≤ instant ∧ instant ≤ maxMicros then
    some { micros := instant, utcoffset := some 0, micros_mem := h, utcoffset_mem := utc_mem }
  else none

/-- The instant a datetime denotes, a naive one being read as UTC. -/
def instant (value : Datetime) : Int :=
  value.micros - value.utcoffset.getD 0

theorem astimezoneUtc?_micros {value utc : Datetime} (h : value.astimezoneUtc? = some utc) :
    utc.micros = value.instant := by
  simp only [astimezoneUtc?] at h
  split at h
  · obtain rfl := Option.some.inj h
    rfl
  · cases h

@[simp] theorem assumeUtc_instant (value : Datetime) : value.assumeUtc.instant = value.instant := by
  unfold assumeUtc
  split
  · rfl
  next hnaive => simp [instant, hnaive]

end Datetime

end Python
