/-!
# `JobWorker.Text.Blank` — white space by the Unicode property

A text is blank when every character has the property `White_Space`. Zero-width characters and the byte
order mark do not have it; the no-break spaces, the vertical tab and the next-line control do.

## Contents
- **Property.** `isBlankChar`.
- **Texts.** `isBlank`, `trim`.
-/

namespace JobWorker.Text

/-- The Unicode property `White_Space`. -/
def isBlankChar (c : Char) : Bool :=
  let n := c.toNat
  (0x09 ≤ n && n ≤ 0x0D) || n == 0x20 || n == 0x85 || n == 0xA0 || n == 0x1680 ||
    (0x2000 ≤ n && n ≤ 0x200A) || n == 0x2028 || n == 0x2029 || n == 0x202F || n == 0x205F ||
    n == 0x3000

/-- Whether a text holds nothing but white space. -/
def isBlank (s : String) : Bool := s.toList.all isBlankChar

/-- A text without the white space at its two ends. -/
def trim (s : String) : String :=
  String.ofList (((s.toList.dropWhile isBlankChar).reverse.dropWhile isBlankChar).reverse)

end JobWorker.Text
