import JobWorker.Json.Printer
import JobWorker.Text.Quoted

/-!
# `JobWorker.Json.Error` — what can be wrong with a JSON text or value

A text can break the grammar, and a value can fail to be what a record asks for. Both are causes; the
wording is in one function per type. A fault found in a text also has a position.

## Contents
- **Grammar.** `SyntaxError`.
- **Shape.** `Found`, `Expected`, `DecodeError`.
- **Together.** `Position`, `Cause`, `Error`.
-/

namespace JobWorker.Json

/-! ## Grammar -/

/-- The ways in which a text breaks the grammar. -/
inductive SyntaxError where
  | endInValue
  | endInString
  | endInList
  | endInObject
  | expectedValue
  | expectedWord
  | expectedColon
  | expectedListCommaOrEnd
  | expectedObjectCommaOrEnd
  | keyNotString
  | trailingComma
  | trailingCharacters
  | invalidNumber
  | numberOutOfRange
  | invalidEscape
  | loneSurrogate
  | unpairedSurrogate
  | controlCharacter
  | tooDeep
deriving DecidableEq, Repr

/-- The wording of a grammar fault. -/
def SyntaxError.message : SyntaxError → String
  | .endInValue               => "EOF while parsing a value"
  | .endInString              => "EOF while parsing a string"
  | .endInList                => "EOF while parsing a list"
  | .endInObject              => "EOF while parsing an object"
  | .expectedValue            => "expected value"
  | .expectedWord             => "expected ident"
  | .expectedColon            => "expected `:`"
  | .expectedListCommaOrEnd   => "expected `,` or `]`"
  | .expectedObjectCommaOrEnd => "expected `,` or `\x7d`"
  | .keyNotString             => "key must be a string"
  | .trailingComma            => "trailing comma"
  | .trailingCharacters       => "trailing characters"
  | .invalidNumber            => "invalid number"
  | .numberOutOfRange         => "number out of range"
  | .invalidEscape            => "invalid escape"
  | .loneSurrogate            => "lone leading surrogate in hex escape"
  | .unpairedSurrogate        => "unexpected end of hex escape"
  | .controlCharacter         =>
    "control character (\\u0000-\\u001F) found while parsing a string"
  | .tooDeep                  => "recursion limit exceeded"

/-! ## Shape -/

/-- The part of a value that a complaint about its type shows. -/
inductive Found where
  | null
  | bool (b : Bool)
  | integer (n : Int)
  | double (x : Extended)
  | text (s : String)
  | list
  | object
deriving DecidableEq, Repr

/-- What a value shows in a complaint about its type. -/
def Value.found : Value → Found
  | .null                => .null
  | .bool b              => .bool b
  | .number (.integer n) => .integer n
  | .number (.double x)  => .double x
  | .text s              => .text s
  | .list _              => .list
  | .object _            => .object

/-- The wording of what was found. -/
def Found.message : Found → String
  | .null      => "null"
  | .bool b    => "boolean `" ++ (if b then "true" else "false") ++ "`"
  | .integer n => "integer `" ++ String.ofList (integerChars n) ++ "`"
  | .double x  => "floating point `" ++ String.ofList (doubleChars x) ++ "`"
  | .text s    => "string " ++ Text.quote s
  | .list      => "sequence"
  | .object    => "map"

/-- The shapes a record asks of its parts. -/
inductive Expected where
  | unsigned (bits : Nat)
  | size
  | signed (bits : Nat)
  | double
  | text
  | bool
  | list
  | map
  | record (name : String)
deriving DecidableEq, Repr

/-- The wording of what was expected. -/
def Expected.message : Expected → String
  | .unsigned bits => "u" ++ toString bits
  | .size          => "usize"
  | .signed bits   => "i" ++ toString bits
  | .double        => "f64"
  | .text          => "a string"
  | .bool          => "a boolean"
  | .list          => "a sequence"
  | .map           => "a map"
  | .record name   => "struct " ++ name

/-- The ways in which a value fails to be what a record asks for. -/
inductive DecodeError where
  | wrongType (found : Found) (expected : Expected)
  | outOfRange (n : Int) (expected : Expected)
  | missingField (name : String)
  | repeatedField (name : String)
  | tooShort (length : Nat) (record : String) (fields : Nat)
  | tooLong (length : Nat)
deriving DecidableEq, Repr

/-- The wording of a decoding fault. -/
def DecodeError.message : DecodeError → String
  | .wrongType found expected =>
    "invalid type: " ++ found.message ++ ", expected " ++ expected.message
  | .outOfRange n expected =>
    "invalid value: integer `" ++ String.ofList (integerChars n) ++ "`, expected " ++ expected.message
  | .missingField name => "missing field `" ++ name ++ "`"
  | .repeatedField name => "duplicate field `" ++ name ++ "`"
  | .tooShort length record fields =>
    "invalid length " ++ toString length ++ ", expected struct " ++ record ++ " with " ++
      toString fields ++ (if fields = 1 then " element" else " elements")
  | .tooLong length =>
    "invalid length " ++ toString length ++ ", expected fewer elements in array"

/-! ## Together -/

/-- A place in a text: the line from one, the bytes since its start from zero. -/
structure Position where
  line : Nat
  column : Nat
deriving DecidableEq, Repr

/-- The wording of a place. -/
def Position.message (p : Position) : String :=
  "line " ++ toString p.line ++ " column " ++ toString p.column

/-- Why a text or value was refused. -/
inductive Cause where
  | grammar (e : SyntaxError)
  | shape (e : DecodeError)
deriving DecidableEq, Repr

/-- The wording of a cause. -/
def Cause.message : Cause → String
  | .grammar e => e.message
  | .shape e   => e.message

/-- A refusal, with its place where it was found in a text. -/
structure Error where
  cause : Cause
  position : Option Position
deriving DecidableEq, Repr

/-- The wording of a refusal. -/
def Error.message (e : Error) : String :=
  match e.position with
  | some p => e.cause.message ++ " at " ++ p.message
  | none   => e.cause.message

end JobWorker.Json
