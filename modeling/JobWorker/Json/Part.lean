import JobWorker.Json.Reader

/-!
# `JobWorker.Json.Part` — the parts of a record

A part of a record is taken out of a value, or read straight from the text where it stands. Read straight, it
is complained about behind its value, except that lists and objects are complained about before they are looked
into where neither is asked for.

## Contents
- **Out of values.** `Decoder`, `decodeUnsigned`, `decodeSigned`, `decodeDouble`, `decodeText`, `decodeBool`,
  `decodeList`, `decodeMap`, `decodeOptional`.
- **Out of texts.** `PartReader`, `plainValue`, `readPlain`, `readItemsBy`, `readList`.
-/

namespace JobWorker.Json

/-! ## Out of values -/

/-- A way to read a value. -/
abbrev Decoder (α : Type) := Value → Except DecodeError α

/-- A whole number from zero to `cap`; `expected` names the type asked for. -/
def decodeUnsigned (cap : Nat) (expected : Expected) : Decoder Nat
  | .number (.integer n) =>
    if 0 ≤ n ∧ n ≤ (cap : Int) then .ok n.toNat else .error (.outOfRange n expected)
  | v => .error (.wrongType v.found expected)

/-- A whole number of 64 bits without sign. -/
def decodeWide : Decoder Nat := decodeUnsigned maxUnsigned64 (.unsigned 64)

/-- A whole number of 64 bits with sign. -/
def decodeSigned : Decoder Int
  | .number (.integer n) =>
    if minSigned64 ≤ n ∧ n ≤ (maxSigned64 : Int) then .ok n else .error (.outOfRange n (.signed 64))
  | v => .error (.wrongType v.found (.signed 64))

/-- Any number, as a double. -/
def decodeDouble : Decoder Extended
  | .number (.integer n) => .ok (Binary64.round n)
  | .number (.double x)  => .ok x
  | v                    => .error (.wrongType v.found .double)

/-- A text. -/
def decodeText : Decoder String
  | .text s => .ok s
  | v       => .error (.wrongType v.found .text)

/-- A truth value. -/
def decodeBool : Decoder Bool
  | .bool b => .ok b
  | v       => .error (.wrongType v.found .bool)

/-- A list whose items are all read the same way. -/
def decodeList {α : Type} (item : Decoder α) : Decoder (List α)
  | .list items => items.mapM item
  | v           => .error (.wrongType v.found .list)

/-- A map whose values are all read the same way, visited by ascending key. -/
def decodeMap {α : Type} (value : Decoder α) : Decoder (List (String × α))
  | .object members => members.mapM fun member => do return (member.1, ← value member.2)
  | v               => .error (.wrongType v.found .map)

/-- A value that may be null. -/
def decodeOptional {α : Type} (value : Decoder α) : Decoder (Option α)
  | .null => .ok none
  | v     => (value v).map some

/-! ## Out of texts -/

/-- A way to read what begins here: what it is, and what follows. -/
abbrev PartReader (α : Type) := List Char → Except Fault (α × List Char)

/-- A complaint about the shape, behind all that was taken. -/
def Fault.shape (e : DecodeError) (rest : List Char) : Fault := ⟨.shape e, rest, 0⟩

/-- Reads a value that is neither list nor object; of these only the kind, and nothing is taken. -/
def plainValue : PartReader Value := fun s =>
  match skipBlank s with
  | '[' :: r    => .ok (.list [], '[' :: r)
  | '\x7b' :: r => .ok (.object [], '\x7b' :: r)
  | r           => readValue (r.length + 1) 0 r

/-- Reads a part that is neither list nor object. -/
def readPlain {α : Type} (decode : Decoder α) : PartReader α := fun s => do
  let (v, rest) ← plainValue s
  match decode v with
  | .ok a    => return (a, rest)
  | .error e => throw (.shape e rest)

/-- Reads the items of a list, all the same way, up to its end; `fuel` bounds the length of the text. -/
def readItemsBy {α : Type} (item : PartReader α) : Nat → Bool → List Char → Except Fault (List α × List Char)
  | 0, _, s => .error (.here .endInList s)
  | fuel + 1, first, s => do
    match ← nextItem first s with
    | .closed rest => return ([], rest)
    | .part text =>
      let (a, rest) ← item text
      let (as, rest) ← readItemsBy item fuel false rest
      return (a :: as, rest)

/-- Reads a list whose items are all read the same way. -/
def readList {α : Type} (item : PartReader α) : PartReader (List α) := fun s =>
  match skipBlank s with
  | '[' :: r => readItemsBy item (r.length + 1) true r
  | r        => do
    let (v, rest) ← plainValue r
    throw (.shape (.wrongType v.found .list) rest)

end JobWorker.Json
