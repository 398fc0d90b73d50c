import JobWorker.Json.Record
import JobWorker.Json.Skip

/-!
# `JobWorker.Json.RecordReader` — records out of JSON text

A record is read straight from a text: members count in the order of the text, a field may stand only once,
and a complaint about the shape has a place. What is missing is noticed behind the closing mark.

## Contents
- **Records.** `readMembersInto`, `readItemsInto`, `Record.read`, `Record.parse`.
- **Fields.** `Field.recordOf` (a record within another).
-/

namespace JobWorker.Json

variable {ρ : Type}

/-- The place of a complaint about a member: behind the blanks after its key, or the end of the object. -/
def behindKey (s : List Char) : List Char :=
  match skipBlank s with
  | '\x7d' :: r => r
  | r           => r

/-- Reads members into the record up to the end of the object; `seen` holds the fields met so far. -/
def readMembersInto (record : Record ρ) :
    Nat → Bool → List String → ρ → List Char → Except Fault (ρ × List Char)
  | 0, _, _, _, s => .error (.here .endInObject s)
  | fuel + 1, first, seen, r, s => do
    match ← nextKey first s with
    | .closed rest =>
      match Record.firstMissing record.fields seen with
      | some name => throw (.shape (.missingField name) rest)
      | none      => return (r, rest)
    | .part text =>
      let (key, rest) ← readString text
      match record.fields.find? fun field => field.name == key with
      | none =>
        let rest ← readColon rest
        let rest ← skipValue (2 * rest.length + 2) rest
        readMembersInto record fuel false seen r rest
      | some field =>
        if seen.contains key then throw (.shape (.repeatedField key) (behindKey rest))
        else
          let rest ← readColon rest
          let (r, rest) ← field.take r rest
          readMembersInto record fuel false (key :: seen) r rest

/-- Reads the end of a list whose items are all there. -/
def endItems (s : List Char) : Except Fault (List Char) :=
  match skipBlank s with
  | []       => .error (.here .endInList [])
  | ']' :: r => .ok r
  | ',' :: r =>
    match skipBlank r with
    | ']' :: t => .error (.here .trailingComma (']' :: t))
    | t        => .error (.here .trailingCharacters t)
  | r => .error (.here .trailingCharacters r)

/-- Reads items into the fields in their order; `index` counts the fields passed. -/
def readItemsInto (record : Record ρ) :
    Nat → List (Field ρ) → ρ → List Char → Except Fault (ρ × List Char)
  | _, [], r, s => do return (r, ← endItems s)
  | index, field :: fields, r, s => do
    match ← nextItem (index == 0) s with
    | .closed rest =>
      if field.optional then
        if fields.all (·.optional) then return (r, rest)
        else throw (.shape (.tooShort (index + 1 + (fields.takeWhile (·.optional)).length)
          record.name record.fields.length) rest)
      else throw (.shape (.tooShort index record.name record.fields.length) rest)
    | .part item =>
      let (r, rest) ← field.take r item
      readItemsInto record (index + 1) fields r rest

/-- Reads a record that begins here. -/
def Record.read (record : Record ρ) : PartReader ρ := fun s =>
  match skipBlank s with
  | '[' :: r    => readItemsInto record 0 record.fields record.blank r
  | '\x7b' :: r => readMembersInto record (r.length + 1) true [] record.blank r
  | r           => do
    let (v, rest) ← readValue (r.length + 1) 0 r
    throw (.shape (.wrongType v.found (.record record.name)) rest)

/-- The record that a text holds. -/
def Record.parse (record : Record ρ) (text : String) : Except Error ρ :=
  let read : Except Fault ρ := do
    let (r, rest) ← record.read text.toList
    readEnd rest
    return r
  read.mapError (·.toError text.toList)

/-- A field whose value is a record. -/
def Field.recordOf {α : Type} (name : String) (part : Record α) (set : α → ρ → ρ) : Field ρ :=
  { Field.of name part.decode set with take := enter part.read set }

end JobWorker.Json
