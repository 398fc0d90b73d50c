/-!
# `JobWorker.Duration` — spans of time

A span counts whole nanoseconds and never exceeds `2^64` seconds less one nanosecond, so a sum can be
refused but a span can never wrap around.

## Contents
- **The type.** `Duration`, `Duration.ofNanos` (clamps at the longest span), `Duration.ofMillis`.
- **Views.** `secs`, `subsecNanos`, `millis` (rounded down), `timerMillis` (rounded up).
- **Sum.** `add?`, refused exactly when the sum has no representation (`add?_eq_some_iff`).
- **Text.** `Duration.text`: the largest unit that gives a whole part, then the shortest fraction.
-/

namespace JobWorker

/-- Nanoseconds in one millisecond. -/
def nanosPerMilli : Nat := 1000000

/-- Nanoseconds in one second. -/
def nanosPerSec : Nat := 1000000000

/-- A span of time in nanoseconds, at most `2^64` seconds less one nanosecond. -/
structure Duration where
  nanos : Nat
  bounded : nanos < 18446744073709551616000000000
deriving DecidableEq, Repr

namespace Duration

/-! ## Construction -/

/-- No time at all. -/
def zero : Duration := ⟨0, by decide⟩

/-- The longest span. -/
def longest : Duration := ⟨18446744073709551615999999999, by decide⟩

/-- The span of `n` nanoseconds, or the longest span where `n` is longer still. -/
def ofNanos (n : Nat) : Duration :=
  if h : n < 18446744073709551616000000000 then ⟨n, h⟩ else longest

/-- The span of `n` milliseconds. -/
def ofMillis (n : Nat) : Duration := ofNanos (n * nanosPerMilli)

/-- The span of `n` seconds. -/
def ofSecs (n : Nat) : Duration := ofNanos (n * nanosPerSec)

instance : Inhabited Duration := ⟨zero⟩

/-! ## Views -/

/-- Whole seconds, rounded down. -/
def secs (d : Duration) : Nat := d.nanos / nanosPerSec

/-- Nanoseconds past the last whole second. -/
def subsecNanos (d : Duration) : Nat := d.nanos % nanosPerSec

/-- Whole milliseconds, rounded down. -/
def millis (d : Duration) : Nat := d.nanos / nanosPerMilli

/-- Milliseconds a timer has to run so that it never fires early: rounded up. -/
def timerMillis (d : Duration) : Nat := (d.nanos + (nanosPerMilli - 1)) / nanosPerMilli

/-- Whole milliseconds, or `cap` where there are more of them. -/
def millisUpTo (cap : Nat) (d : Duration) : Nat := min d.millis cap

/-! ## Comparison and sum -/

/-- The longer of two spans. -/
def max (a b : Duration) : Duration := if a.nanos ≤ b.nanos then b else a

/-- The sum, if it is no longer than the longest span. -/
def add? (a b : Duration) : Option Duration :=
  if h : a.nanos + b.nanos < 18446744073709551616000000000 then some ⟨a.nanos + b.nanos, h⟩ else none

@[simp] theorem nanos_ofNanos {n : Nat} (h : n < 18446744073709551616000000000) : (ofNanos n).nanos = n := by
  rw [ofNanos, dif_pos h]

@[simp] theorem nanos_max (a b : Duration) : (a.max b).nanos = Nat.max a.nanos b.nanos := by
  unfold max
  split <;> simp only [Nat.max_def] <;> split <;> omega

theorem add?_eq_some_iff {a b c : Duration} :
    a.add? b = some c ↔ c.nanos = a.nanos + b.nanos := by
  unfold add?
  constructor
  · intro h
    split at h
    · cases h; rfl
    · cases h
  · intro h
    have hb := c.bounded
    rw [h] at hb
    simp only [hb, dite_true, Option.some.injEq]
    cases c
    simp_all

/-! ## Text -/

/-- Digits of a fraction `part / 10^width` without trailing zeros. -/
def fractionDigits (part width : Nat) : List Char :=
  let digits := Nat.toDigits 10 part
  let padded := List.replicate (width - digits.length) '0' ++ digits
  (padded.reverse.dropWhile (· == '0')).reverse

/-- A quantity with a whole part and a fraction `part / 10^width`, followed by its unit. -/
def decimalText (whole part width : Nat) (unit : String) : String :=
  match fractionDigits part width with
  | [] => toString whole ++ unit
  | digits => toString whole ++ "." ++ String.ofList digits ++ unit

/-- Text of a span: the largest of `s`, `ms`, `µs` and `ns` that gives a whole part. -/
def text (d : Duration) : String :=
  if d.nanos ≥ nanosPerSec then decimalText d.secs d.subsecNanos 9 "s"
  else if d.nanos ≥ nanosPerMilli then
    decimalText (d.nanos / nanosPerMilli) (d.nanos % nanosPerMilli) 6 "ms"
  else if d.nanos ≥ 1000 then decimalText (d.nanos / 1000) (d.nanos % 1000) 3 "µs"
  else decimalText d.nanos 0 0 "ns"

end Duration

end JobWorker
