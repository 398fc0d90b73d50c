/-!
# `JobWorker.Text.Numeral` — numerals in settings

A numeral is a non-empty run of ASCII digits, after at most one plus sign, and stands for a number up
to a given cap. Nothing else is read: no blanks, no separators, no minus sign.

## Contents
- `digitValue?`, `numeralValue?` — the value of a digit, of a run of digits.
- `numeral?` — a numeral up to a cap.
-/

namespace JobWorker.Text

/-- The value of an ASCII digit. -/
def digitValue? (c : Char) : Option Nat := if c.isDigit then some (c.toNat - 48) else none

/-- The value of a run of digits read from the left, after `done`. -/
def numeralValue? (done : Nat) : List Char → Option Nat
  | []      => some done
  | c :: cs => (digitValue? c).bind fun d => numeralValue? (done * 10 + d) cs

/-- The number a numeral stands for, if it is at most `cap`. -/
def numeral? (cap : Nat) (s : String) : Option Nat :=
  let digits := match s.toList with
    | '+' :: cs => cs
    | cs        => cs
  if digits.isEmpty then none
  else (numeralValue? 0 digits).bind fun n => if n ≤ cap then some n else none

end JobWorker.Text
