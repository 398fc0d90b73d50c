import JobWorker.Number.Binary64

/-!
# `JobWorker.Number.Shortest` — the fewest digits that read back

Of all decimals that round to a given binary64 number the shortest is chosen, and of the shortest the one
nearest to the number. For each count of digits only the two neighbours of the number on that decimal grid
have to be looked at: if any point of the grid reads back, one of them does.

## Contents
- **Decimal.** Digits with the exponent of the leading one.
- **Interval.** `readsBack q`: the rationals that round to `q`, ends included for an even significand.
- **Search.** `Decimal.shortest`.
-/

namespace JobWorker

/-- The positive decimal `d.ddd · 10^exponent`, its digits without trailing zeros. -/
structure Decimal where
  digits : List Char
  exponent : Int
deriving DecidableEq, Repr

namespace Decimal

/-- Whether `x` rounds to the binary64 magnitude `q`. -/
def readsBack (q x : Rat) : Bool :=
  let e := Binary64.exponent q
  let ulp := ratPow 2 e
  let m := Binary64.significand q
  let high := q + ulp / 2
  let low := if m = 4503599627370496 ∧ -1074 < e then q - ulp / 4 else q - ulp / 2
  if m % 2 = 0 then decide (low ≤ x ∧ x ≤ high) else decide (low < x ∧ x < high)

/-- The neighbour of `q` on the grid of `count` digits that reads back, the nearer of two. -/
def onGrid (q : Rat) (count : Nat) : Option Nat :=
  let unit := ratPow 10 (log10Floor q - (count - 1 : Nat))
  let down := (q / unit).floor.toNat
  let lower : Rat := down * unit
  let upper : Rat := (down + 1 : Nat) * unit
  match readsBack q lower, readsBack q upper with
  | false, false => none
  | true, false  => some down
  | false, true  => some (down + 1)
  | true, true   =>
    if q - lower < upper - q then some down
    else if upper - q < q - lower then some (down + 1)
    else if down % 2 = 0 then some down else some (down + 1)

/-- The decimal with significand `n` on the grid of `count` digits of `q`. -/
def ofGrid (q : Rat) (count n : Nat) : Decimal :=
  let digits := Nat.toDigits 10 n
  { digits := (digits.reverse.dropWhile (· == '0')).reverse
    exponent := log10Floor q - (count - 1 : Nat) + ((digits.length : Int) - 1) }

/-- The first grid from `count` digits on with a decimal that reads back. -/
def search (q : Rat) : Nat → Nat → Decimal
  | 0, count => ofGrid q count ((q / ratPow 10 (log10Floor q - (count - 1 : Nat))).floor.toNat)
  | fuel + 1, count =>
    match onGrid q count with
    | some n => ofGrid q count n
    | none   => search q fuel (count + 1)

/-- The shortest decimal that reads back as the positive binary64 number `q`; seventeen digits always do. -/
def shortest (q : Rat) : Decimal := search q 17 1

end Decimal

end JobWorker
