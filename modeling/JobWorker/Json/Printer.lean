import JobWorker.Json.Value
import JobWorker.Number.Shortest

/-!
# `JobWorker.Json.Printer` — compact JSON text

Nothing is written between tokens. Strings escape the quotation mark, the backslash and the characters
below the space, and nothing else. A double shows its shortest digits, in positional notation while the
exponent of its first digit lies between −5 and 15, and there always with a fraction.

## Contents
- **Strings.** `escapeChar`, `quotedChars`.
- **Numbers.** `positionalChars`, `scientificChars`, `doubleChars`, `Number.chars`.
- **Values.** `Value.chars`, `Value.render`.
-/

namespace JobWorker.Json

/-! ## Strings -/

/-- A digit of a lower-case hexadecimal numeral. -/
def hexDigit (n : Nat) : Char := Nat.digitChar n

/-- How one character stands inside a string. -/
def escapeChar (c : Char) : List Char :=
  if c = '"' then ['\\', '"']
  else if c = '\\' then ['\\', '\\']
  else if c.toNat = 8 then ['\\', 'b']
  else if c.toNat = 12 then ['\\', 'f']
  else if c = '\n' then ['\\', 'n']
  else if c = '\r' then ['\\', 'r']
  else if c = '\t' then ['\\', 't']
  else if c.toNat < 32 then ['\\', 'u', '0', '0', hexDigit (c.toNat / 16), hexDigit (c.toNat % 16)]
  else [c]

/-- The characters of a string, escaped. -/
def escapeChars (cs : List Char) : List Char := cs.flatMap escapeChar

/-- A string between quotation marks. -/
def quotedChars (s : String) : List Char := '"' :: escapeChars s.toList ++ ['"']

/-! ## Numbers -/

/-- Exponents of the leading digit that are written positionally. -/
def positionalLow : Int := -5

/-- The largest exponent of the leading digit that is written positionally. -/
def positionalHigh : Int := 15

/-- A decimal in positional notation, with at least one digit on either side of the point. -/
def positionalChars (d : Decimal) : List Char :=
  if d.exponent < 0 then
    '0' :: '.' :: List.replicate (-d.exponent - 1).toNat '0' ++ d.digits
  else
    let whole := d.exponent.toNat + 1
    let digits := d.digits ++ List.replicate (whole - d.digits.length) '0'
    let fraction := digits.drop whole
    digits.take whole ++ '.' :: (if fraction.isEmpty then ['0'] else fraction)

/-- A decimal in scientific notation: the point only before further digits, the exponent always signed. -/
def scientificChars (d : Decimal) : List Char :=
  let mantissa := match d.digits with
    | first :: second :: more => first :: '.' :: second :: more
    | digits                  => digits
  let sign := if d.exponent < 0 then '-' else '+'
  mantissa ++ 'e' :: sign :: Nat.toDigits 10 d.exponent.natAbs

/-- A positive decimal in the notation that its exponent asks for. -/
def decimalChars (d : Decimal) : List Char :=
  if positionalLow ≤ d.exponent ∧ d.exponent ≤ positionalHigh then positionalChars d
  else scientificChars d

/-- A double; JSON has no infinities and no *not a number*, which become `null`. -/
def doubleChars : Extended → List Char
  | .nan          => "null".toList
  | .infinity _   => "null".toList
  | .negativeZero => "-0.0".toList
  | .finite q     =>
    if q = 0 then "0.0".toList
    else if q < 0 then '-' :: decimalChars (Decimal.shortest (-q))
    else decimalChars (Decimal.shortest q)

/-- A whole number in decimal. -/
def integerChars (n : Int) : List Char :=
  if n < 0 then '-' :: Nat.toDigits 10 n.natAbs else Nat.toDigits 10 n.natAbs

/-- The text of a number. -/
def Number.chars : Number → List Char
  | .integer n => integerChars n
  | .double x  => doubleChars x

/-! ## Values -/

mutual

/-- The compact text of a value. -/
def Value.chars : Value → List Char
  | .null           => "null".toList
  | .bool true      => "true".toList
  | .bool false     => "false".toList
  | .number n       => n.chars
  | .text s         => quotedChars s
  | .list items     => '[' :: Value.itemsChars [] items ++ [']']
  | .object members => '\x7b' :: Value.membersChars [] members ++ ['\x7d']

/-- Items in a row, with a comma between any two; `lead` stands before the first. -/
def Value.itemsChars (lead : List Char) : List Value → List Char
  | []      => []
  | v :: vs => lead ++ v.chars ++ Value.itemsChars [','] vs

/-- Members in a row, with a comma between any two; `lead` stands before the first. -/
def Value.membersChars (lead : List Char) : List (String × Value) → List Char
  | []           => []
  | (k, v) :: ms => lead ++ quotedChars k ++ ':' :: v.chars ++ Value.membersChars [','] ms

end

/-- The compact text of a value, as a string. -/
def Value.render (v : Value) : String := String.ofList v.chars

end JobWorker.Json
