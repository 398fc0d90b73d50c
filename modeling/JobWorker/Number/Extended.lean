/-!
# `JobWorker.Number.Extended` — rationals with the special values of floating point

A number is a rational, a signed infinity, a negative zero or *not a number*. Every operation whose
exact result can miss the representable numbers takes a `Rounding`, so the same definitions compute in
exact arithmetic (`Rounding.exact`) and in a floating-point format.

## Contents
- **The type.** `Extended`, its sign, its ordering by `lt` and `le` (false whenever an operand is no number).
- **Arithmetic.** `mul`, `add` with the special cases of floating point; `Rounding`.
- **Selection.** `max` prefers a number to *not a number*; `clamp` keeps *not a number*.
- **To whole numbers.** `roundHalfAway`, `toNatUpTo` (negative and no number give zero, too large the cap).
-/

namespace JobWorker

/-- A number of a floating-point format, or of exact arithmetic, by value. -/
inductive Extended where
  | nan
  | infinity (negative : Bool)
  | negativeZero
  | finite (value : Rat)
deriving DecidableEq, Repr

/-- How an exact result is brought back among the representable numbers. -/
abbrev Rounding := Rat → Extended

/-- Exact arithmetic: every rational is representable. -/
def Rounding.exact : Rounding := .finite

namespace Extended

instance : Inhabited Extended := ⟨.finite 0⟩

/-- The number `n`. -/
def ofNat (n : Nat) : Extended := .finite n

/-- The number one. -/
def one : Extended := .finite 1

/-- The number zero. -/
def zero : Extended := .finite 0

/-- Whether the number carries a minus sign. -/
def isNegative : Extended → Bool
  | .nan          => false
  | .infinity neg => neg
  | .negativeZero => true
  | .finite q     => decide (q < 0)

/-- The rational a number stands for, if it stands for one. -/
def toRat? : Extended → Option Rat
  | .negativeZero => some 0
  | .finite q     => some q
  | _             => none

/-! ## Ordering -/

/-- `a < b` as floating point compares: false whenever an operand is no number. -/
def lt : Extended → Extended → Bool
  | .nan, _ => false
  | _, .nan => false
  | .infinity true, .infinity true => false
  | .infinity true, _ => true
  | .infinity false, _ => false
  | _, .infinity neg => !neg
  | a, b => decide (a.toRat?.getD 0 < b.toRat?.getD 0)

/-- `a ≤ b` as floating point compares: false whenever an operand is no number. -/
def le (a b : Extended) : Bool :=
  match a, b with
  | .nan, _ => false
  | _, .nan => false
  | _, _    => !b.lt a

/-- The greater of two numbers; a number is preferred to no number. -/
def max (a b : Extended) : Extended :=
  match a, b with
  | .nan, _ => b
  | _, .nan => a
  | _, _    => if a.lt b then b else a

/-- The nearest number between `lo` and `hi`; no number stays no number. -/
def clamp (x lo hi : Extended) : Extended :=
  let raised := if x.lt lo then lo else x
  if hi.lt raised then hi else raised

/-! ## Arithmetic -/

/-- Zero with the sign asked for. -/
def signedZero (negative : Bool) : Extended := if negative then .negativeZero else .finite 0

/-- The product: an infinity times a zero is no number, and signs multiply also on zeros. -/
def mul (round : Rounding) (a b : Extended) : Extended :=
  let negative := a.isNegative != b.isNegative
  match a, b with
  | .nan, _ => .nan
  | _, .nan => .nan
  | .infinity _, _ => if b.toRat? = some 0 then .nan else .infinity negative
  | _, .infinity _ => if a.toRat? = some 0 then .nan else .infinity negative
  | _, _ =>
    let product := a.toRat?.getD 0 * b.toRat?.getD 0
    if product = 0 then signedZero negative else round product

/-- The sum: opposite infinities give no number, and only two negative zeros give a negative zero. -/
def add (round : Rounding) (a b : Extended) : Extended :=
  match a, b with
  | .nan, _ => .nan
  | _, .nan => .nan
  | .infinity s, .infinity t => if s = t then .infinity s else .nan
  | .infinity s, _ => .infinity s
  | _, .infinity t => .infinity t
  | .negativeZero, .negativeZero => .negativeZero
  | _, _ =>
    let sum := a.toRat?.getD 0 + b.toRat?.getD 0
    if sum = 0 then .finite 0 else round sum

/-! ## To whole numbers -/

/-- The whole number nearest to a rational, halves away from zero. -/
def roundRat (q : Rat) : Int :=
  if 0 ≤ q then (q + 1 / 2).floor else -((-q + 1 / 2).floor)

/-- The nearest whole number, halves away from zero. -/
def roundHalfAway : Extended → Extended
  | .finite q =>
    if q < 0 && roundRat q == 0 then .negativeZero else .finite (roundRat q)
  | x => x

/-- The number cut to a whole one between zero and `cap`; no number gives zero. -/
def toNatUpTo (cap : Nat) : Extended → Nat
  | .nan            => 0
  | .infinity true  => 0
  | .infinity false => cap
  | .negativeZero   => 0
  | .finite q       => min q.floor.toNat cap

end Extended

end JobWorker
