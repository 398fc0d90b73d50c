import JobWorker.Json.Error

/-!
# `JobWorker.Json.Reader` — reading JSON text

The reader works on characters and hands back what it left unread. A fault remembers the unread rest and
how many bytes of it the position still covers: one where a byte was only looked at or was the last one
taken, none where the fault lies behind everything taken. Positions are computed from that at the end.

## Contents
- **Faults.** `Fault`, `positionAt`, `Fault.toError`.
- **Tokens.** `skipBlank`, `readWord`, `readNumber`, `readString`.
- **Values.** `readValue`, bounded in depth; `readDocument`, `Value.parse`.
-/

namespace JobWorker.Json

/-! ## Faults -/

/-- Bytes that a text takes in UTF-8. -/
def utf8Length : List Char → Nat
  | []      => 0
  | c :: cs => c.utf8Size + utf8Length cs

/-- A cause with the unread text where it showed, and the bytes of that text its position covers. -/
structure Fault where
  cause : Cause
  rest : List Char
  covered : Nat

/-- A fault at a byte that was looked at. -/
def Fault.here (e : SyntaxError) (rest : List Char) : Fault := ⟨.grammar e, rest, 1⟩

/-- A fault behind all that was taken. -/
def Fault.behind (e : SyntaxError) (rest : List Char) : Fault := ⟨.grammar e, rest, 0⟩

/-- The place `offset` bytes into a text, counted on from `p`. -/
def positionAt (p : Position) : Nat → List Char → Position
  | _, [] => p
  | offset, c :: cs =>
    if offset = 0 then p
    else if c = '\n' then positionAt ⟨p.line + 1, 0⟩ (offset - 1) cs
    else if c.utf8Size ≤ offset then
      positionAt ⟨p.line, p.column + c.utf8Size⟩ (offset - c.utf8Size) cs
    else ⟨p.line, p.column + offset⟩

/-- A fault in `text` as a refusal with its place. -/
def Fault.toError (text : List Char) (f : Fault) : Error :=
  { cause := f.cause
    position := some (positionAt ⟨1, 0⟩ (utf8Length text - utf8Length f.rest + f.covered) text) }

/-! ## Blanks and words -/

/-- The four blanks of the grammar. -/
def isGrammarBlank (c : Char) : Bool := c == ' ' || c == '\n' || c == '\t' || c == '\r'

/-- What follows the blanks. -/
def skipBlank (s : List Char) : List Char := s.dropWhile isGrammarBlank

/-- Reads the characters of a word that has begun. -/
def readWord : List Char → List Char → Except Fault (List Char)
  | [], s           => .ok s
  | _ :: _, []      => .error (.behind .endInValue [])
  | w :: ws, c :: s => if c = w then readWord ws s else .error (.here .expectedWord (c :: s))

/-! ## Numbers -/

/-- The number with a run of decimal digits. -/
def digitsValue (digits : List Char) : Nat :=
  digits.foldl (fun n c => n * 10 + (c.toNat - 48)) 0

/-- The double `± significand · 10^exponent`, or nothing when it is out of range. -/
def doubleOf? (negative : Bool) (significand : Nat) (exponent : Int) : Option Extended :=
  if significand = 0 then some (Extended.signedZero negative)
  else
    let scale := exponent + (decimalLength significand : Int)
    if 320 < scale then none
    else if scale < -330 then some (Extended.signedZero negative)
    else
      let q : Rat := significand * ratPow 10 exponent
      match Binary64.round (if negative then -q else q) with
      | .infinity _ => none
      | x           => some x

/-- Reads on in the digits of an exponent whose value so far is `n`. A positive exponent that grows too
large is a fault at once, unless the significand is zero; otherwise the number is zero. -/
def readExponentDigits (negativeExponent zeroSignificand : Bool) (n : Nat) :
    List Char → Except Fault (Option Nat × List Char)
  | [] => .ok (some n, [])
  | c :: s =>
    if c.isDigit then
      let next := n * 10 + (c.toNat - 48)
      if maxSigned32 < next then
        if !zeroSignificand && !negativeExponent then .error (.behind .numberOutOfRange s)
        else .ok (none, s.dropWhile Char.isDigit)
      else readExponentDigits negativeExponent zeroSignificand next s
    else .ok (some n, c :: s)

/-- Reads an exponent after its mark: an optional sign, then at least one digit. -/
def readExponent (zeroSignificand : Bool) (s : List Char) : Except Fault (Option Int × List Char) :=
  let (negative, s) := match s with
    | '+' :: r => (false, r)
    | '-' :: r => (true, r)
    | r        => (false, r)
  match s with
  | [] => .error (.behind .endInValue [])
  | c :: r =>
    if c.isDigit then do
      let (size, rest) ← readExponentDigits negative zeroSignificand (c.toNat - 48) r
      return (size.map fun n => if negative then -(n : Int) else n, rest)
    else .error (.here .invalidNumber (c :: r))

/-- Ends a number with a fraction or an exponent; no exponent means that it vanished. -/
def finishDouble (negative : Bool) (whole fraction : List Char) (exponent : Option Int)
    (rest : List Char) : Except Fault (Number × List Char) :=
  match exponent with
  | none => .ok (.double (Extended.signedZero negative), rest)
  | some e =>
    match doubleOf? negative (digitsValue (whole ++ fraction)) (e - (fraction.length : Int)) with
    | some x => .ok (.double x, rest)
    | none   => .error (.behind .numberOutOfRange rest)

/-- Reads what follows the digits of a number before any exponent. -/
def readScaled (negative : Bool) (whole fraction : List Char) (s : List Char) :
    Except Fault (Number × List Char) :=
  match s with
  | c :: r =>
    if c = 'e' ∨ c = 'E' then do
      let (exponent, rest) ← readExponent (digitsValue (whole ++ fraction) == 0) r
      finishDouble negative whole fraction exponent rest
    else finishDouble negative whole fraction (some 0) s
  | [] => finishDouble negative whole fraction (some 0) s

/-- A number without fraction and exponent: whole if it fits 64 bits, and minus zero is a double. -/
def finishWhole (negative : Bool) (whole rest : List Char) : Except Fault (Number × List Char) :=
  let n : Int := if negative then -(digitsValue whole : Int) else digitsValue whole
  if negative && n == 0 then .ok (.double .negativeZero, rest)
  else if isWide n then .ok (.integer n, rest)
  else finishDouble negative whole [] (some 0) rest

/-- Reads what follows the whole part of a number. -/
def readFraction (negative : Bool) (whole : List Char) (s : List Char) : Except Fault (Number × List Char) :=
  match s with
  | '.' :: r =>
    let fraction := r.takeWhile Char.isDigit
    let rest := r.dropWhile Char.isDigit
    if fraction.isEmpty then
      .error (.here (if rest.isEmpty then .endInValue else .invalidNumber) rest)
    else readScaled negative whole fraction rest
  | c :: _ =>
    if c = 'e' ∨ c = 'E' then readScaled negative whole [] s else finishWhole negative whole s
  | [] => finishWhole negative whole s

/-- Reads a number after its sign. -/
def readUnsigned (negative : Bool) (s : List Char) : Except Fault (Number × List Char) :=
  match s with
  | [] => .error (.behind .endInValue [])
  | c :: r =>
    if c = '0' then
      match r with
      | d :: _ =>
        if d.isDigit then .error (.here .invalidNumber r) else readFraction negative [c] r
      | [] => readFraction negative [c] r
    else if c.isDigit then
      readFraction negative (c :: r.takeWhile Char.isDigit) (r.dropWhile Char.isDigit)
    else .error (.here .invalidNumber s)

/-- Reads a number that begins here. -/
def readNumber (s : List Char) : Except Fault (Number × List Char) :=
  match s with
  | '-' :: r => readUnsigned true r
  | _        => readUnsigned false s

/-! ## Strings -/

/-- The value of a hexadecimal digit of either case. -/
def hexValue? (c : Char) : Option Nat :=
  if c.isDigit then some (c.toNat - 48)
  else if 'a' ≤ c ∧ c ≤ 'f' then some (c.toNat - 87)
  else if 'A' ≤ c ∧ c ≤ 'F' then some (c.toNat - 55)
  else none

/-- The value of four hexadecimal digits. -/
def hexValue4? (a b c d : Char) : Option Nat := do
  let a ← hexValue? a
  let b ← hexValue? b
  let c ← hexValue? c
  let d ← hexValue? d
  return ((a * 16 + b) * 16 + c) * 16 + d

/-- Reads the four bytes of a code unit; four bytes are taken whatever they are. -/
def readUnit (s : List Char) : Except Fault (Nat × List Char) :=
  if utf8Length (s.take 4) < 4 then .error (.behind .endInString [])
  else
    match s with
    | a :: b :: c :: d :: rest =>
      match hexValue4? a b c d with
      | some n => .ok (n, rest)
      | none   => .error ⟨.grammar .invalidEscape, s, 4⟩
    | _ => .error ⟨.grammar .invalidEscape, s, 4⟩

/-- Whether a code unit is the first of a surrogate pair. -/
def isLeading (n : Nat) : Bool := 0xD800 ≤ n && n ≤ 0xDBFF

/-- Whether a code unit is the second of a surrogate pair. -/
def isTrailing (n : Nat) : Bool := 0xDC00 ≤ n && n ≤ 0xDFFF

/-- Reads the second half of a surrogate pair, which must follow at once. -/
def readTrailing (s : List Char) : Except Fault (Nat × List Char) :=
  match s with
  | [] => .error (.behind .endInString [])
  | '\\' :: [] => .error (.behind .endInString [])
  | '\\' :: 'u' :: r => do
    let (n, rest) ← readUnit r
    if isTrailing n then return (n, rest) else throw (.behind .loneSurrogate rest)
  | '\\' :: r => .error (.here .unpairedSurrogate r)
  | r => .error (.here .unpairedSurrogate r)

/-- Reads a code point written in hexadecimal, as one unit or as a surrogate pair. -/
def readCodePoint (s : List Char) : Except Fault (Char × List Char) := do
  let (n, rest) ← readUnit s
  if isTrailing n then throw (.behind .loneSurrogate rest)
  else if isLeading n then
    let (m, rest) ← readTrailing rest
    return (Char.ofNat (0x10000 + (n - 0xD800) * 0x400 + (m - 0xDC00)), rest)
  else return (Char.ofNat n, rest)

/-- Reads the rest of an escape, after its backslash. -/
def readEscape (s : List Char) : Except Fault (Char × List Char) :=
  match s with
  | []        => .error (.behind .endInString [])
  | '"' :: r  => .ok ('"', r)
  | '\\' :: r => .ok ('\\', r)
  | '/' :: r  => .ok ('/', r)
  | 'b' :: r  => .ok (Char.ofNat 8, r)
  | 'f' :: r  => .ok (Char.ofNat 12, r)
  | 'n' :: r  => .ok ('\n', r)
  | 'r' :: r  => .ok ('\r', r)
  | 't' :: r  => .ok ('\t', r)
  | 'u' :: r  => readCodePoint r
  | c :: r    => .error (.here .invalidEscape (c :: r))

/-- Reads a string after its opening mark; `fuel` bounds the characters. -/
def readChars : Nat → List Char → Except Fault (List Char × List Char)
  | 0, _ => .error (.behind .endInString [])
  | fuel + 1, s =>
    match s with
    | []        => .error (.behind .endInString [])
    | '"' :: r  => .ok ([], r)
    | '\\' :: r => do
      let (c, rest) ← readEscape r
      let (cs, rest) ← readChars fuel rest
      return (c :: cs, rest)
    | c :: r =>
      if c.toNat < 32 then .error (.here .controlCharacter (c :: r))
      else do
        let (cs, rest) ← readChars fuel r
        return (c :: cs, rest)

/-- Reads a string after its opening mark. -/
def readString (s : List Char) : Except Fault (String × List Char) := do
  let (cs, rest) ← readChars (s.length + 1) s
  return (String.ofList cs, rest)

/-! ## Values -/

/-- Reads the colon between a key and its value. -/
def readColon (s : List Char) : Except Fault (List Char) :=
  match skipBlank s with
  | ':' :: r => .ok r
  | []       => .error (.here .endInObject [])
  | r        => .error (.here .expectedColon r)

/-- Where a list or object goes on: behind its closing mark, or at its next part. -/
inductive Next where
  | closed (rest : List Char)
  | part (rest : List Char)

/-- Moves to the next item of a list, past the comma that all but the first one need. -/
def nextItem (first : Bool) (s : List Char) : Except Fault Next :=
  match skipBlank s with
  | []       => .error (.here .endInList [])
  | ']' :: r => .ok (.closed r)
  | ',' :: r =>
    if first then .ok (.part (',' :: r))
    else
      match skipBlank r with
      | []       => .error (.here .endInValue [])
      | ']' :: t => .error (.here .trailingComma (']' :: t))
      | t        => .ok (.part t)
  | r => if first then .ok (.part r) else .error (.here .expectedListCommaOrEnd r)

/-- Moves behind the opening mark of a key that has to stand here. -/
def openKey (s : List Char) : Except Fault Next :=
  match s with
  | '"' :: r    => .ok (.part r)
  | []          => .error (.here .endInValue [])
  | '\x7d' :: r => .error (.here .trailingComma ('\x7d' :: r))
  | r           => .error (.here .keyNotString r)

/-- Moves behind the opening mark of the next key of an object, past the comma that all but the first
one need. -/
def nextKey (first : Bool) (s : List Char) : Except Fault Next :=
  match skipBlank s with
  | []          => .error (.here .endInObject [])
  | '\x7d' :: r => .ok (.closed r)
  | ',' :: r    => if first then openKey (',' :: r) else openKey (skipBlank r)
  | r           => if first then openKey r else .error (.here .expectedObjectCommaOrEnd r)

mutual

/-- Reads a value; `depth` bounds the nesting still allowed and `fuel` the length of the text. -/
def readValue : Nat → Nat → List Char → Except Fault (Value × List Char)
  | 0, _, s => .error (.here .endInValue s)
  | fuel + 1, depth, s =>
    match skipBlank s with
    | [] => .error (.here .endInValue [])
    | 'n' :: r => do return (.null, ← readWord "ull".toList r)
    | 't' :: r => do return (.bool true, ← readWord "rue".toList r)
    | 'f' :: r => do return (.bool false, ← readWord "alse".toList r)
    | '"' :: r => do
      let (text, rest) ← readString r
      return (.text text, rest)
    | '[' :: r =>
      match depth with
      | 0         => .error (.here .tooDeep ('[' :: r))
      | depth + 1 => do
        let (items, rest) ← readItems fuel depth true r
        return (.list items, rest)
    | '\x7b' :: r =>
      match depth with
      | 0         => .error (.here .tooDeep ('\x7b' :: r))
      | depth + 1 => do
        let (members, rest) ← readMembers fuel depth true [] r
        return (.object members, rest)
    | c :: r =>
      if c = '-' ∨ c.isDigit then do
        let (n, rest) ← readNumber (c :: r)
        return (.number n, rest)
      else .error (.here .expectedValue (c :: r))

/-- Reads the items of a list up to its end. -/
def readItems : Nat → Nat → Bool → List Char → Except Fault (List Value × List Char)
  | 0, _, _, s => .error (.here .endInList s)
  | fuel + 1, depth, first, s => do
    match ← nextItem first s with
    | .closed rest => return ([], rest)
    | .part item =>
      let (v, rest) ← readValue fuel depth item
      let (vs, rest) ← readItems fuel depth false rest
      return (v :: vs, rest)

/-- Reads the members of an object up to its end into the map `done`. -/
def readMembers : Nat → Nat → Bool → Members → List Char → Except Fault (Members × List Char)
  | 0, _, _, _, s => .error (.here .endInObject s)
  | fuel + 1, depth, first, done, s => do
    match ← nextKey first s with
    | .closed rest => return (done, rest)
    | .part text =>
      let (key, rest) ← readString text
      let rest ← readColon rest
      let (v, rest) ← readValue fuel depth rest
      readMembers fuel depth false (done.insert key v) rest

end

/-- The nesting that a document may have. -/
def maxDepth : Nat := 127

/-- Refuses anything but blanks. -/
def readEnd (s : List Char) : Except Fault Unit :=
  match skipBlank s with
  | [] => .ok ()
  | r  => .error (.here .trailingCharacters r)

/-- Reads a text that holds one value nested at most `depth` deep. -/
def readDocument (depth : Nat) (text : List Char) : Except Fault Value := do
  let (v, rest) ← readValue (2 * text.length + 2) depth text
  readEnd rest
  return v

/-- The value of a text. -/
def Value.parse (text : String) : Except Error Value :=
  (readDocument maxDepth text.toList).mapError (·.toError text.toList)

end JobWorker.Json
