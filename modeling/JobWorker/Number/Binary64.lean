import JobWorker.Number.Extended

/-!
# `JobWorker.Number.Binary64` — the double-precision format

A binary64 number is `m · 2^e` with `m < 2^53` and `e ≥ -1074`. `Binary64.round` sends a rational to the
nearest such number, a tie to the even significand, and anything at or above `2^1024` to an infinity.

## Contents
- **Scale.** `log2Floor`, `log10Floor`: the exponent of the leading digit of a positive rational.
- **Grid.** `Binary64.exponent`, `Binary64.significand`: the representation of a magnitude.
- **Rounding.** `nearestEven`, `Binary64.round`.
-/

namespace JobWorker

/-! ## Scale of a positive rational -/

/-- `base^e` for a whole exponent of either sign. -/
def ratPow (base : Nat) (e : Int) : Rat :=
  if 0 ≤ e then (Nat.pow base e.toNat : Rat) else 1 / (Nat.pow base (-e).toNat : Rat)

/-- The largest `e` with `2^e ≤ q`, for positive `q`. -/
def log2Floor (q : Rat) : Int :=
  let e : Int := (Nat.log2 q.num.toNat : Int) - (Nat.log2 q.den : Int)
  if ratPow 2 e ≤ q then e else e - 1

/-- Number of decimal digits of a natural number, at least one. -/
def decimalLength (n : Nat) : Nat := (Nat.toDigits 10 n).length

/-- The largest `e` with `10^e ≤ q`, for positive `q`. -/
def log10Floor (q : Rat) : Int :=
  let e : Int := (decimalLength q.num.toNat : Int) - (decimalLength q.den : Int)
  if ratPow 10 e ≤ q then e else e - 1

/-! ## Rounding to the grid -/

/-- The whole number nearest to a non-negative rational, a tie to the even one. -/
def nearestEven (q : Rat) : Nat :=
  let down := q.floor.toNat
  let rest := q - down
  if rest < 1 / 2 then down
  else if 1 / 2 < rest then down + 1
  else if down % 2 = 0 then down else down + 1

namespace Binary64

/-- Exponent of the last significand bit of a positive magnitude. -/
def exponent (q : Rat) : Int := max (log2Floor q - 52) (-1074)

/-- Significand of a positive magnitude, rounded to the nearest, a tie to even. -/
def significand (q : Rat) : Nat := nearestEven (q / ratPow 2 (exponent q))

/-- The binary64 number nearest to `q`; what reaches `2^1024` becomes an infinity. -/
def round : Rounding := fun q =>
  if q = 0 then .finite 0
  else
    let magnitude := if q < 0 then -q else q
    let rounded := (significand magnitude : Rat) * ratPow 2 (exponent magnitude)
    if ratPow 2 1024 ≤ rounded then .infinity (decide (q < 0))
    else if rounded = 0 then Extended.signedZero (decide (q < 0))
    else .finite (if q < 0 then -rounded else rounded)

end Binary64

end JobWorker
