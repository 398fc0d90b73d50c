import JobWorker.Number.Extended
import JobWorker.Number.Width

/-!
# `JobWorker.Json.Value` — JSON values

Whole numbers that fit 64 bits, with or without sign, stay whole; every other number is a binary64 number.
The members of an object stand in the order of their list. A *map* keeps them strictly ascending by key,
which is how documents are read; a record written field by field keeps the order of its declaration.

## Contents
- **Types.** `Number`, `Value`, `Members`.
- **Maps.** `Members.insert` (the last value of a key wins), `Members.find?`, `Members.keys`.
- **Canonical values.** `Value.Canonical`: integers in range and every object a map.
-/

namespace JobWorker.Json

/-- A JSON number: whole within 64 bits, or binary64. -/
inductive Number where
  | integer (n : Int)
  | double (x : Extended)
deriving DecidableEq, Repr

/-- A JSON value. -/
inductive Value where
  | null
  | bool (b : Bool)
  | number (n : Number)
  | text (s : String)
  | list (items : List Value)
  | object (members : List (String × Value))
deriving Repr

instance : Inhabited Value := ⟨.null⟩

/-- The members of an object, each key with its value. -/
abbrev Members := List (String × Value)

/-- The value of a natural number. -/
def Value.nat (n : Nat) : Value := .number (.integer n)

/-- The value of a whole number. -/
def Value.int (n : Int) : Value := .number (.integer n)

/-- The list of some texts. -/
def Value.texts (items : List String) : Value := .list (items.map .text)

/-- Whether a whole number fits 64 bits, with or without sign. -/
def isWide (n : Int) : Bool := decide (minSigned64 ≤ n ∧ n ≤ (maxUnsigned64 : Int))

/-! ## Maps -/

namespace Members

/-- Sets the value of a key in a map, keeping the keys ascending. -/
def insert (key : String) (value : Value) : Members → Members
  | []              => [(key, value)]
  | (k, v) :: rest =>
    if key < k then (key, value) :: (k, v) :: rest
    else if key = k then (key, value) :: rest
    else (k, v) :: insert key value rest

/-- The value of a key. -/
def find? (key : String) (members : Members) : Option Value := List.lookup key members

/-- The keys in their order. -/
def keys (members : Members) : List String := List.map (·.1) members

end Members

/-! ## Canonical values -/

mutual

/-- A value that reading can produce: integers fit 64 bits, doubles are finite, and every object is a map. -/
def Value.Canonical : Value → Prop
  | .number (.integer n) => isWide n = true
  | .number (.double x)  => x.toRat?.isSome = true
  | .list items          => Value.AllCanonical items
  | .object members      => (members.map (·.1)).Pairwise (· < ·) ∧ Value.MembersCanonical members
  | _                    => True

/-- All items are canonical. -/
def Value.AllCanonical : List Value → Prop
  | []      => True
  | v :: vs => v.Canonical ∧ Value.AllCanonical vs

/-- All member values are canonical. -/
def Value.MembersCanonical : List (String × Value) → Prop
  | []           => True
  | (_, v) :: ms => v.Canonical ∧ Value.MembersCanonical ms

end

end JobWorker.Json
