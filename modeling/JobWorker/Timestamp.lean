/-!
# `JobWorker.Timestamp` — points in time

A point in time counts milliseconds since the epoch. Those that a calendar date can express reach from the
year −262143 to the year 262142, in UTC.

## Contents
- **The type.** `Timestamp`, with `Timestamp.ofMillis?` refusing what no date expresses.
- **Views.** `secs` rounds towards the past, so that `subsecMillis` is never negative.
-/

namespace JobWorker

/-- A point in time in milliseconds since the epoch, within the range of calendar dates. -/
structure Timestamp where
  millis : Int
  earliest_le : -8334601228800000 ≤ millis
  le_latest : millis ≤ 8210266876799999
deriving DecidableEq, Repr

namespace Timestamp

/-- The point `millis` milliseconds after the epoch, if a date expresses it. -/
def ofMillis? (millis : Int) : Option Timestamp :=
  if h : -8334601228800000 ≤ millis ∧ millis ≤ 8210266876799999 then some ⟨millis, h.1, h.2⟩
  else none

/-- Whole seconds since the epoch, rounded towards the past. -/
def secs (t : Timestamp) : Int := t.millis.fdiv 1000

/-- Milliseconds past the last whole second, from 0 to 999. -/
def subsecMillis (t : Timestamp) : Int := t.millis.fmod 1000

end Timestamp

end JobWorker
