import JobWorker.Text.Unseen

/-!
# `JobWorker.Text.Quoted` — texts between quotation marks

A quoted text shows one line for any content: the quotation mark and the backslash get a backslash, the
common controls their letter, and every other character that cannot be seen its code point in hexadecimal.

## Contents
- `hexText` — a number in lower-case hexadecimal.
- `quoteChar`, `quote` — the escape of one character, and the quoted text.
-/

namespace JobWorker.Text

/-- A number in lower-case hexadecimal. -/
def hexText (n : Nat) : String := String.ofList (Nat.toDigits 16 n)

/-- How one character stands between quotation marks. -/
def quoteChar (c : Char) : String :=
  if c = '"' then "\\\""
  else if c = '\\' then "\\\\"
  else if c = '\n' then "\\n"
  else if c = '\t' then "\\t"
  else if c = '\r' then "\\r"
  else if c = '\x00' then "\\0"
  else if isUnseen c || isJoining c then "\\u\x7b" ++ hexText c.toNat ++ "\x7d"
  else c.toString

/-- A text between quotation marks. -/
def quote (s : String) : String :=
  "\"" ++ s.toList.foldl (fun done c => done ++ quoteChar c) "" ++ "\""

end JobWorker.Text
