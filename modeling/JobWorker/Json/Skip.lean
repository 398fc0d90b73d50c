import JobWorker.Json.Reader

/-!
# `JobWorker.Json.Skip` — passing over values

The value of a member that no field asks for is passed over without being kept. Its grammar is checked,
but nothing about it that only matters to a value that is kept: numbers may be out of range, surrogates
unpaired, and the nesting as deep as it likes.

## Contents
- **Tokens.** `skipString`, `skipNumber`.
- **Values.** `skipValue` with `skipItems` and `skipMembers`, bounded by the length of the text.
-/

namespace JobWorker.Json

/-- Passes over a string after its opening mark; `fuel` bounds the characters. -/
def skipString : Nat → List Char → Except Fault (List Char)
  | 0, _ => .error (.behind .endInString [])
  | fuel + 1, s =>
    match s with
    | []               => .error (.behind .endInString [])
    | '"' :: r         => .ok r
    | '\\' :: []       => .error (.behind .endInString [])
    | '\\' :: 'u' :: r => do
      let (_, rest) ← readUnit r
      skipString fuel rest
    | '\\' :: c :: r =>
      if ['"', '\\', '/', 'b', 'f', 'n', 'r', 't'].contains c then skipString fuel r
      else .error (.here .invalidEscape (c :: r))
    | c :: r =>
      if c.toNat < 32 then .error (.here .controlCharacter (c :: r)) else skipString fuel r

/-- Passes over digits of which there must be one; `missing` places the complaint where there is none. -/
def skipDigits (missing : List Char → Fault) (s : List Char) : Except Fault (List Char) :=
  match s with
  | c :: r => if c.isDigit then .ok (r.dropWhile Char.isDigit) else .error (missing s)
  | []     => .error (missing [])

/-- A fault at a character that had to be a digit and was taken, unless the text ended. -/
def notDigit (s : List Char) : Fault :=
  if s.isEmpty then .behind .invalidNumber [] else .here .invalidNumber s

/-- Passes over an exponent, if there is one. -/
def skipExponent (s : List Char) : Except Fault (List Char) :=
  match s with
  | c :: r =>
    if c = 'e' ∨ c = 'E' then
      skipDigits notDigit (match r with
        | '+' :: t => t
        | '-' :: t => t
        | t        => t)
    else .ok s
  | [] => .ok []

/-- Passes over a number that begins here. -/
def skipNumber (s : List Char) : Except Fault (List Char) := do
  let digits := match s with
    | '-' :: r => r
    | r        => r
  let rest ← match digits with
    | '0' :: c :: r =>
      if c.isDigit then throw (.here .invalidNumber (c :: r)) else pure (c :: r)
    | _ => skipDigits notDigit digits
  match rest with
  | '.' :: r => do skipExponent (← skipDigits (.here .invalidNumber) r)
  | r        => skipExponent r

/-- Moves behind the opening mark of a key that has to stand here. -/
def skipToKey (s : List Char) : Except Fault (List Char) :=
  match skipBlank s with
  | '"' :: r => .ok r
  | []       => .error (.here .endInObject [])
  | r        => .error (.here .keyNotString r)

mutual

/-- Passes over a value. -/
def skipValue : Nat → List Char → Except Fault (List Char)
  | 0, s => .error (.here .endInValue s)
  | fuel + 1, s =>
    match skipBlank s with
    | []       => .error (.here .endInValue [])
    | 'n' :: r => readWord "ull".toList r
    | 't' :: r => readWord "rue".toList r
    | 'f' :: r => readWord "alse".toList r
    | '"' :: r => skipString (r.length + 1) r
    | '[' :: r =>
      match skipBlank r with
      | ']' :: t => .ok t
      | []       => .error (.here .endInList [])
      | t        => skipItems fuel t
    | '\x7b' :: r =>
      match skipBlank r with
      | '\x7d' :: t => .ok t
      | []          => .error (.here .endInObject [])
      | t           => skipMembers fuel t
    | c :: r =>
      if c = '-' ∨ c.isDigit then skipNumber (c :: r) else .error (.here .expectedValue (c :: r))

/-- Passes over the items of a list from one of them on. -/
def skipItems : Nat → List Char → Except Fault (List Char)
  | 0, s => .error (.here .endInList s)
  | fuel + 1, s => do
    match skipBlank (← skipValue fuel s) with
    | ',' :: r => skipItems fuel r
    | ']' :: r => .ok r
    | []       => .error (.here .endInList [])
    | r        => .error (.here .expectedListCommaOrEnd r)

/-- Passes over the members of an object from one of them on. -/
def skipMembers : Nat → List Char → Except Fault (List Char)
  | 0, s => .error (.here .endInObject s)
  | fuel + 1, s => do
    let key ← skipToKey s
    let rest ← skipString (key.length + 1) key
    let rest ← readColon rest
    match skipBlank (← skipValue fuel rest) with
    | ',' :: r    => skipMembers fuel r
    | '\x7d' :: r => .ok r
    | []          => .error (.here .endInObject [])
    | r           => .error (.here .expectedObjectCommaOrEnd r)

end

end JobWorker.Json
