import JobWorker.Json.Part

/-!
# `JobWorker.Json.Record` — records out of JSON values

A record names its fields in an order. It is read from an object, whose members are visited by ascending
key and may hold more than the record asks for, or from a list that gives the fields in their order. The
first member that does not fit is reported, then the first field that is missing.

## Contents
- **Fields.** `Field`, `Field.of`, `Field.listOf`, `Field.orAbsent`.
- **Records.** `Record`, `Record.decode`.
-/

namespace JobWorker.Json

/-! ## Fields -/

/-- One field: its name, how it enters the record out of a value and straight from a text, and whether it may be
absent. -/
structure Field (ρ : Type) where
  name : String
  store : Value → ρ → Except DecodeError ρ
  take : ρ → PartReader ρ
  optional : Bool := false

/-- Reads a part and enters it into the record by `set`. -/
def enter {ρ α : Type} (read : PartReader α) (set : α → ρ → ρ) (r : ρ) : PartReader ρ := fun s => do
  let (a, rest) ← read s
  return (set a r, rest)

/-- A field whose value is neither list nor object, decoded by `decode` and entered by `set`. -/
def Field.of {ρ α : Type} (name : String) (decode : Decoder α) (set : α → ρ → ρ) : Field ρ :=
  { name, store := fun v r => (decode v).map (set · r), take := enter (readPlain decode) set }

/-- A field whose value is a list with items that are neither lists nor objects. -/
def Field.listOf {ρ α : Type} (name : String) (item : Decoder α) (set : List α → ρ → ρ) : Field ρ :=
  { Field.of name (decodeList item) set with take := enter (readList (readPlain item)) set }

/-- The same field, allowed to be absent. -/
def Field.orAbsent {ρ : Type} (field : Field ρ) : Field ρ := { field with optional := true }

/-! ## Records -/

/-- A record: its name, its fields in order, and what it holds where an optional field is absent. -/
structure Record (ρ : Type) where
  name : String
  fields : List (Field ρ)
  blank : ρ

namespace Record

variable {ρ : Type}

/-- Enters the members of an object in their order, passing over those that name no field. -/
def storeMembers (fields : List (Field ρ)) : Members → ρ → Except DecodeError ρ
  | [], r => .ok r
  | (key, v) :: ms, r =>
    match fields.find? fun field => field.name == key with
    | some field => do storeMembers fields ms (← field.store v r)
    | none       => storeMembers fields ms r

/-- The first field that has to be there and is not. -/
def firstMissing (fields : List (Field ρ)) (keys : List String) : Option String :=
  (fields.find? fun field => !field.optional && !keys.contains field.name).map (·.name)

/-- Enters the items of a list into the fields in their order; `index` counts the fields passed. -/
def storeItems (record : Record ρ) :
    Nat → List (Field ρ) → List Value → ρ → Except DecodeError ρ
  | index, [], rest, r =>
    if rest.isEmpty then .ok r else .error (.tooLong (index + rest.length))
  | index, field :: fields, [], r =>
    if field.optional then storeItems record (index + 1) fields [] r
    else .error (.tooShort index record.name record.fields.length)
  | index, field :: fields, v :: vs, r => do
    storeItems record (index + 1) fields vs (← field.store v r)

/-- The record that a value holds. -/
def decode (record : Record ρ) : Decoder ρ
  | .object members => do
    let r ← storeMembers record.fields members record.blank
    match firstMissing record.fields (Members.keys members) with
    | some name => .error (.missingField name)
    | none      => .ok r
  | .list items => storeItems record 0 record.fields items record.blank
  | v => .error (.wrongType v.found (.record record.name))

end Record

end JobWorker.Json
