import JobWorker.Duration
import JobWorker.Number.Width
import JobWorker.Text.Blank
import JobWorker.Text.Numeral

/-!
# `JobWorker.Config.Environment` — settings from variables

Settings are looked up by name. A value that does not read as what is asked for counts as absent.

## Contents
- **Lookup.** `Environment`, `Environment.text?`.
- **Readings.** `natural?`, `millis?`, `flag?`, `list?`.
-/

namespace JobWorker

/-- Named values. -/
abbrev Environment := List (String × String)

namespace Environment

/-- The value of a variable. -/
def text? (env : Environment) (name : String) : Option String := List.lookup name env

/-- A number up to `cap`. -/
def natural? (env : Environment) (cap : Nat) (name : String) : Option Nat :=
  (env.text? name).bind (Text.numeral? cap)

/-- A span in milliseconds. -/
def millis? (env : Environment) (name : String) : Option Duration :=
  (env.natural? maxUnsigned64 name).map .ofMillis

/-- A switch: on for `true` and `1`, off for anything else. -/
def flag? (env : Environment) (name : String) : Option Bool :=
  (env.text? name).map fun value => value == "true" || value == "1"

/-- The pieces between commas. -/
def splitCommas : List Char → List (List Char)
  | []      => [[]]
  | c :: cs =>
    if c = ',' then [] :: splitCommas cs
    else
      match splitCommas cs with
      | []         => [[c]]
      | word :: ws => (c :: word) :: ws

/-- A list with commas between its items; blanks around items and empty items do not count. -/
def list? (env : Environment) (name : String) : Option (List String) :=
  (env.text? name).map fun value =>
    ((splitCommas value.toList).map fun word => Text.trim (String.ofList word)).filter
      fun item => !item.isEmpty

end Environment

end JobWorker
