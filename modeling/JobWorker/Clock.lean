import JobWorker.Duration
import JobWorker.Number.Width

/-!
# `JobWorker.Clock` — points on a clock, and tokens that fire

The clock counts whole milliseconds. A timer never fires early: it is set to the first tick at or after its
end. A token is a wish to stop that, once it has fired, stays fired.

## Contents
- **Ticks.** `Time`, `Time.after` (never early: `Time.nanos_le_of_after_le`, nor late: `Time.after_le_iff`),
  `Time.deadline?`.
- **Tokens.** `Token`, `Token.fires?`, `Token.isFired`, `Token.cuts?`, `Token.wake?`.
-/

namespace JobWorker

/-- A tick of the clock, in milliseconds from its start. -/
abbrev Time := Nat

/-- The wait of a timer whose end lies beyond every clock: thirty years. -/
def farFuture : Time := 86400000 * 365 * 30

/-- The tick at which a timer fires that is set at `now`. -/
def Time.after (now : Time) (d : Duration) : Time :=
  if d.secs ≤ maxSigned64 then now + d.timerMillis else now + farFuture

/-- No timer fires before it is set. -/
theorem Time.le_after (now : Time) (d : Duration) : now ≤ Time.after now d := by
  unfold Time.after
  split
  · exact Nat.le_add_right _ _
  · exact Nat.le_add_right _ _

/-- A timer that is set later does not fire earlier. -/
theorem Time.after_le_after {now later : Time} (d : Duration) (h : now ≤ later) :
    Time.after now d ≤ Time.after later d := by
  unfold Time.after
  split
  · exact Nat.add_le_add_right h _
  · exact Nat.add_le_add_right h _

/-- A timer runs for its whole span, rounded up to whole ticks. -/
theorem Time.nanos_le_of_after_le {now later : Nat} {d : Duration} (hsecs : d.secs ≤ maxSigned64)
    (h : Time.after now d ≤ later) : d.nanos ≤ (later - now) * nanosPerMilli := by
  rw [Time.after, if_pos hsecs] at h
  have hticks : now + (d.nanos + 999999) / 1000000 ≤ later := h
  show d.nanos ≤ (later - now) * 1000000
  omega

/-- By the end of that span it has fired. -/
theorem Time.after_le_iff {now later : Nat} {d : Duration} (hsecs : d.secs ≤ maxSigned64) (hlater : now ≤ later) :
    Time.after now d ≤ later ↔ d.nanos ≤ (later - now) * nanosPerMilli := by
  refine ⟨Time.nanos_le_of_after_le hsecs, fun h => ?_⟩
  rw [Time.after, if_pos hsecs]
  have hnanos : d.nanos ≤ (later - now) * 1000000 := h
  show now + (d.nanos + 999999) / 1000000 ≤ later
  omega

/-- A timer runs equally long whenever it is set. -/
theorem Time.after_eq_add (now : Time) (d : Duration) : Time.after now d = now + Time.after 0 d := by
  unfold Time.after
  split
  · rw [Nat.zero_add]
  · rw [Nat.zero_add]

/-- The tick at which a deadline ends that is set at `now`. Other than for a timer, its span has to be one that
the clock can count. The span alone is looked at: `now` is how long the clock has run, of no account beside the
greatest span that it counts. -/
def Time.deadline? (now : Time) (d : Duration) : Option Time :=
  if d.secs ≤ maxSigned64 then some (Time.after now d) else none

/-- A wish to stop: absent, there from the beginning, or coming at some tick. -/
inductive Token where
  | never
  | fired
  | firesAt (t : Time)
deriving DecidableEq, Repr, Inhabited

namespace Token

/-- The tick at which a token fires; one that has fired from the beginning has fired at every tick. -/
def fires? : Token → Option Time
  | never     => none
  | fired     => some 0
  | firesAt t => some t

/-- Whether a token has fired by `now`. -/
def isFired (now : Time) : Token → Bool
  | never     => false
  | fired     => true
  | firesAt t => decide (t ≤ now)

/-- Whether a token had fired before anything began. -/
def wasFired (token : Token) : Bool := token == fired

/-- The tick at which a token cuts short a wait from `start` to `due`, if it does. Where it fires at the very
end of the wait, `timer` lets the wait run out. -/
def cuts? (token : Token) (timer : Bool) (start due : Time) : Option Time :=
  (token.fires?.map (max start)).filter fun t => decide (t < due) || (decide (t = due) && !timer)

/-- A wait is cut short while it lasts. -/
theorem le_of_cuts? {token : Token} {timer : Bool} {start due t : Time} (h : token.cuts? timer start due = some t) :
    start ≤ t := by
  obtain ⟨hfires, -⟩ := Option.filter_eq_some_iff.mp h
  obtain ⟨fires, -, rfl⟩ := Option.map_eq_some_iff.mp hfires
  exact Nat.le_max_left _ _

/-- Where a wait runs out as the token fires, a look at the token at its end makes up for it. -/
theorem cuts?_or_isFired (token : Token) (timer : Bool) {start due : Time} (h : start ≤ due) :
    (token.cuts? timer start due).or (if token.isFired due then some due else none) =
      token.cuts? false start due := by
  cases token with
  | never => rfl
  | fired =>
      simp only [cuts?, fires?, isFired, Option.map_some, Option.filter]
      grind
  | firesAt t =>
      simp only [cuts?, fires?, isFired, Option.map_some, Option.filter]
      grind

/-- The tick at which a token is still going to fire. -/
def wake? : Token → Option Time
  | firesAt t => some t
  | _         => none

end Token

end JobWorker
