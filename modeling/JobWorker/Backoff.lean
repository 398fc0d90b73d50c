import JobWorker.Duration
import JobWorker.Number.Binary64
import JobWorker.Number.Width

/-!
# `JobWorker.Backoff` — growing delays

The next delay is the previous one times a factor, kept between a least and a greatest delay, moved by a
random share of itself and rounded to whole milliseconds. Feeding each delay back in makes them grow.

Everything is computed through a `Rounding`: with `Binary64.round` as floating point does, with
`Rounding.exact` in rationals. The random source is a *draw* between −1 and 1, the share of the widest move.

## Contents
- **Settings.** `Backoff`, `Backoff.make` (factor at least one, jitter between zero and one, greatest delay
  not below the least).
- **Delays.** `Backoff.raw`, `Backoff.window`, `Backoff.next`, `Backoff.chain`; `Backoff.next?`, which tells where the
  computation breaks down.
- **Sampling.** `Backoff.spread`, evenly spaced draws; `Backoff.observe`, what they show.
-/

namespace JobWorker

/-- The settings of growing delays. -/
structure Backoff where
  minDelay : Duration
  maxDelay : Duration
  factor : Extended
  jitter : Extended
deriving DecidableEq, Repr

namespace Backoff

/-! ## Settings -/

/-- A factor of at least one; no number becomes one. -/
def saneFactor (factor : Extended) : Extended := factor.max .one

/-- A jitter between zero and one; no number stays none, and then nothing is moved. -/
def saneJitter (jitter : Extended) : Extended := jitter.clamp .zero .one

/-- Settings from any values. -/
def make (minDelay maxDelay : Duration) (factor jitter : Extended) : Backoff :=
  { minDelay
    maxDelay := maxDelay.max minDelay
    factor := saneFactor factor
    jitter := saneJitter jitter }

/-- The factor where none is given. -/
def defaultFactor : Extended := Binary64.round (8 / 5)

/-- The jitter where none is given. -/
def defaultJitter : Extended := Binary64.round (1 / 10)

/-- The least delay where none is given. -/
def defaultMin : Duration := .ofMillis 50

/-- The greatest delay where none is given. -/
def defaultMax : Duration := .ofMillis 5000

/-! ## Delays -/

/-- A span in milliseconds as a number: its seconds and its fraction of a second, summed, times 1000. -/
def millisOf (round : Rounding) (d : Duration) : Extended :=
  let secs := round d.secs
  let fraction := round ((d.subsecNanos : Rat) / 1000000000)
  (secs.add round fraction).mul round (.ofNat 1000)

/-- The delay after `previous` before it is moved, in milliseconds. -/
def raw (round : Rounding) (b : Backoff) (previous : Duration) : Extended :=
  ((millisOf round previous).mul round b.factor).clamp (millisOf round b.minDelay)
    (millisOf round b.maxDelay)

/-- How far the delay after `previous` may be moved either way. -/
def window (round : Rounding) (b : Backoff) (previous : Duration) : Extended :=
  (b.raw round previous).mul round b.jitter

/-- The move that a draw between −1 and 1 stands for; there is none where the window is not positive. -/
def offset (round : Rounding) (b : Backoff) (draw : Rat) (previous : Duration) : Extended :=
  let w := b.window round previous
  if Extended.zero.lt w then w.mul round (.finite draw) else .zero

/-- Milliseconds from a number: not negative, rounded with halves away from zero, at most 64 bits. -/
def wholeMillis (x : Extended) : Nat := ((x.max .zero).roundHalfAway).toNatUpTo maxUnsigned64

/-- The delay that follows `previous` under a draw. -/
def next (round : Rounding) (b : Backoff) (draw : Rat) (previous : Duration) : Duration :=
  .ofMillis (wholeMillis ((b.raw round previous).add round (b.offset round draw previous)))

/-- Whether the least delay is at most the greatest, without which nothing can be kept between them. -/
def isOrdered (round : Rounding) (b : Backoff) : Bool := (millisOf round b.minDelay).le (millisOf round b.maxDelay)

/-- Whether a move can be drawn where one has to be: the window is finite. -/
def canDraw (round : Rounding) (b : Backoff) (previous : Duration) : Bool :=
  let w := b.window round previous
  !Extended.zero.lt w || w.toRat?.isSome

/-- The delay that follows `previous` under a draw, where computing it does not break down. -/
def next? (round : Rounding) (b : Backoff) (draw : Rat) (previous : Duration) : Option Duration :=
  if b.isOrdered round && b.canDraw round previous then some (b.next round draw previous) else none

/-- The first delays of the chain that starts after `start`, each fed back in, all drawn at zero. -/
def chain (round : Rounding) (b : Backoff) : Nat → Duration → List Duration
  | 0, _         => []
  | n + 1, start =>
    let d := b.next round 0 start
    d :: chain round b n d

/-! ## Sampling -/

/-- `n` draws spread evenly over the open interval from −1 to 1. -/
def spread (n : Nat) : List Rat :=
  (List.range n).map fun k => ((2 * k + 1 : Nat) : Rat) / (n : Rat) - 1

/-- What the spread of the delays after one delay shows. -/
structure SpreadReport where
  centre : Duration
  withinBounds : Bool
  varied : Bool
  bothSides : Bool

/-- The jitter as a share between zero and one; no number is no share. -/
def share (b : Backoff) : Rat := (b.jitter.toRat?).getD 0

/-- Takes `n` evenly spread delays after `previous` and compares them with the one that is not moved:
whether all lie within the jitter, give or take a millisecond, whether they differ, and whether some lie on
either side. -/
def observe (round : Rounding) (b : Backoff) (n : Nat) (previous : Duration) : SpreadReport :=
  let centre := { b with jitter := .zero }.next round 0 previous
  let samples := (spread n).map fun draw => (b.next round draw previous).millis
  let low := (centre.millis : Rat) * (1 - b.share) - 1
  let high := (centre.millis : Rat) * (1 + b.share) + 1
  { centre
    withinBounds := samples.all fun ms => decide (low ≤ (ms : Rat) ∧ (ms : Rat) ≤ high)
    varied := samples.any fun ms => !(some ms == samples.head?)
    bothSides := samples.any (· < centre.millis) && samples.any (centre.millis < ·) }

end Backoff

end JobWorker
