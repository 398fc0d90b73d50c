import JobWorker.Gateway.Desk
import JobWorker.Simulation.Machine

/-!
# `JobWorker.Simulation.Calls` — several calls at one gateway

Calls are open side by side, each with a name. One of them may be in the foreground: then time passes until
it is answered. The others are answered in the background, and what ended there is listed.

## Contents
- **The type.** `Calls`, `Finished`.
- **Steps.** `Calls.machine`.
- **Operations.** `Calls.change`, `Calls.spawn`, `Calls.activate`, `Calls.pass`.
-/

namespace JobWorker

/-- Who made a call: the one in the foreground, or a named one in the background. -/
inductive Caller where
  | foreground
  | background (name : String) (number : Nat)
deriving DecidableEq, Repr

/-- A call in the background that ended: its name, its tick, its answer. -/
structure Finished where
  name : String
  time : Time
  answer : Except ClientError (List Batch)

/-- A desk, the callers whose calls are open there with the numbers of these, and what ended in the background. -/
structure Calls where
  desk : Desk := {}
  made : Nat := 0
  callers : List (Caller × Nat) := []
  finished : List Finished := []

namespace Calls

/-- The gateway. -/
def gateway (s : Calls) : Gateway := s.desk.gateway

/-- The clock. -/
def now (s : Calls) : Time := s.desk.now

/-- The call of a caller. -/
def call? (who : Caller) (s : Calls) : Option Call := (List.lookup who s.callers).bind s.desk.call?

/-- Without a caller whose call is over. -/
def without (who : Caller) (s : Calls) : Calls :=
  { s with callers := s.callers.filter fun entry => !(entry.1 == who) }

/-- The next step of a caller; an answer in the background is listed. -/
def step (who : Caller) (s : Calls) : Option Calls := do
  let id ← List.lookup who s.callers
  let call ← s.desk.call? id
  match who, call.answer? with
  | .background name _, some answer =>
    return { s.without who with finished := s.finished ++ [{ name, time := s.now, answer }] }
  | _, _ =>
    let desk ← s.desk.perform (.step id true)
    return { s with desk }

/-- The calls side by side. -/
def machine : Machine Calls Caller where
  actors s := s.callers.map (·.1)
  step := step
  wake? who s := (s.call? who).bind (·.wake?)
  now s := s.now
  setNow t s := { s with desk := { s.desk with now := t } }

/-- Changes the gateway and lets everything happen that follows at once. -/
def change (f : Gateway → Gateway) (s : Calls) : Calls :=
  machine.settle { s with desk := { s.desk with gateway := f s.gateway } }

/-- A caller begins a call, in front of all others or behind them. -/
def begin (first : Bool) (who : Caller) (request : ActivationRequest) (s : Calls) : Calls :=
  let entry := (who, s.desk.calls.length)
  { s with
    desk := (s.desk.perform (.arrive request)).getD s.desk
    callers := if first then entry :: s.callers else s.callers ++ [entry] }

/-- Opens a call in the background. -/
def spawn (name : String) (request : ActivationRequest) (s : Calls) : Calls :=
  machine.settle ({ s with made := s.made + 1 }.begin false (.background name s.made) request)

/-- Whether the call in the foreground is still open. -/
def isBusy (s : Calls) : Bool := (s.call? .foreground).any fun call => call.answer?.isNone

/-- Makes a call in the foreground and waits for its answer. -/
def activate (request : ActivationRequest) (s : Calls) :
    Calls × Option (Except ClientError (List Batch)) :=
  let s := machine.runWhile isBusy Machine.patience (s.begin true .foreground request)
  (s.without .foreground, (s.call? .foreground).bind (·.answer?))

/-- Lets time pass. -/
def pass (ticks : Time) (s : Calls) : Calls := machine.pass ticks s

/-- Sends a command, and lets everything happen that follows at once. -/
def attempt (request : CommandRequest) (s : Calls) : Calls × Except ClientError Unit :=
  let (gateway, result) := s.gateway.attempt request
  (machine.settle { s with desk := { s.desk with gateway } }, result)

end Calls

end JobWorker
