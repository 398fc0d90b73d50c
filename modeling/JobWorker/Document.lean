import JobWorker.Json.Reader
import JobWorker.Text.Blank

/-!
# `JobWorker.Document` — JSON documents carried as text

Variables and headers travel as JSON texts that have to hold an object. A blank text and `null` stand for
the empty object; on the way out a missing value becomes the empty text.

## Contents
- **Reading.** `ConversionError`, `readObject`.
- **Writing.** `documentText`.
-/

namespace JobWorker

/-- Why something a gateway sent has no counterpart here. -/
inductive ConversionError where
  | invalidDocument (field : String) (source : Json.Error)
  | notAnObject (field : String)
  | invalidTimestamp (millis : Int)
deriving DecidableEq, Repr

/-- The wording of a conversion fault. -/
def ConversionError.message : ConversionError → String
  | .invalidDocument field source => "Invalid JSON document in " ++ field ++ ": " ++ source.message
  | .notAnObject field => "Expected a JSON object in " ++ field
  | .invalidTimestamp millis => "Invalid epoch timestamp: " ++ toString millis

/-- The faults behind a conversion fault, outermost first. -/
def ConversionError.sources : ConversionError → List String
  | .invalidDocument _ source => [source.message]
  | _                         => []

/-- The members of the object that a document holds; `field` names the document in a refusal. -/
def readObject (field document : String) : Except ConversionError Json.Members :=
  if Text.isBlank document then .ok []
  else
    match Json.Value.parse document with
    | .error e              => .error (.invalidDocument field e)
    | .ok (.object members) => .ok members
    | .ok .null             => .ok []
    | .ok _                 => .error (.notAnObject field)

/-- The text that carries a value, empty where there is none. -/
def documentText : Option Json.Value → String
  | some v => v.render
  | none   => ""

end JobWorker
