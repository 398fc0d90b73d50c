import JobWorker.Handling
import JobWorker.Sending

/-!
# `JobWorker.Simulation.Script` — handlers by script

A scripted handler notes its start, sleeps, does some acts, notes its end and comes back as the script says.
An act sends a command or reads the variables; one that fails ends the handler with its error at once,
unless the script says to go on.

## Contents
- **Scripts.** `SendMode`, `Order`, `Act`, `Ending`, `Script`.
- **Notes.** `LogEntry`.
- **Runs.** `Activity`, `ActivityStep`, `Activity.step`, `Activity.wake?`.
-/

namespace JobWorker

/-! ## Scripts -/

/-- How a command is sent, if at all. -/
inductive SendMode where
  | once
  | retry
  | unsent
deriving DecidableEq, Repr

/-- A command to be made and sent; without a key of its own it is about the job in hand. -/
structure Order where
  key : Option Int := none
  make : Int → Command
  mode : SendMode := .once
  cancelled : Bool := false
  cancelAfter : Option Time := none

/-- The token of an order that is begun at `now`. -/
def Order.token (order : Order) (now : Time) : Token :=
  if order.cancelled then .fired
  else match order.cancelAfter with
    | some ticks => .firesAt (now + ticks)
    | none       => .never

/-- How an order is to be sent, if at all. -/
def Order.plan? (order : Order) (retry : RetryDelay) (now : Time) : Option SendPlan :=
  match order.mode with
  | .unsent => none
  | .once   => some .once
  | .retry  => some (.withRetry retry (order.token now))

/-- The command of an order, about the job in hand where it has no key of its own. -/
def Order.command (order : Order) (key : Int) : Command := order.make (order.key.getD key)

/-- One thing a handler does. -/
inductive Act where
  | order (order : Order) (ignoreError : Bool)
  | readVariables (read : Job → Except Json.Error Json.Value)

/-- How a handler comes back. -/
inductive Ending where
  | well
  | breakdown
  | failure (f : Failure)

/-- The result that an ending is for the handling; a breakdown counts as failed. -/
def Ending.result : Ending → HandlerResult
  | .well      => .ok ()
  | .breakdown => .error .panicked
  | .failure f => .error f

/-- What a handler does with one job. -/
structure Script where
  sleep : Option Time := none
  acts : List Act := []
  ending : Ending := .well

/-! ## Notes -/

/-- What a handler notes. -/
inductive LogEntry where
  | start (key : Int) (time : Time)
  | vars (key : Int) (text : String)
  | finish (key : Int) (time : Time)
deriving DecidableEq, Repr

/-! ## Runs -/

/-- Where a scripted handler stands. -/
inductive ActivityPhase where
  | starting
  | sleeping (due : Time)
  | acting (acts : List Act)
  | sending (sending : Sending) (ignoreError : Bool) (acts : List Act)
  | finished (result : HandlerResult)

/-- A scripted handler at work on a job. -/
structure Activity where
  job : Job
  script : Script
  phase : ActivityPhase := .starting

/-- What a step of a handler does: to the gateway, to the handler, to the notes, to the numbers looked up
for waits, and whether it made a command. -/
structure ActivityStep where
  gateway : Gateway
  activity : Activity
  notes : List LogEntry := []
  lookups : List Nat := []
  used : Bool := false

namespace Activity

/-- The result of a handler that came back. -/
def result? (a : Activity) : Option HandlerResult :=
  match a.phase with
  | .finished result => some result
  | _                => none

/-- A handler that an act failed. -/
def failed (e : ClientError) (a : Activity) : Activity :=
  { a with phase := .finished (.error (.ofError e)) }

/-- The next step of a handler, if it does not have to wait. A handler on a thread of its own does not
sleep. -/
def step (kind : HandlerKind) (retry : RetryDelay) (now : Time) (g : Gateway) (a : Activity) :
    Option ActivityStep :=
  match a.phase with
  | .starting =>
    let phase := match kind, a.script.sleep with
      | .async, some ticks => .sleeping (now + ticks)
      | _, _               => .acting a.script.acts
    some { gateway := g, activity := { a with phase }, notes := [.start a.job.key now] }
  | .sleeping due =>
    if due ≤ now then
      some { gateway := g, activity := { a with phase := .acting a.script.acts } }
    else none
  | .acting [] =>
    some {
      gateway := g
      activity := { a with phase := .finished a.script.ending.result }
      notes := [.finish a.job.key now] }
  | .acting (.order order ignoreError :: acts) =>
    let activity := match (order.plan? retry now).map fun plan => (order.command a.job.key).send plan with
      | none              => { a with phase := .acting acts }
      | some (.ok s)      => { a with phase := .sending s ignoreError acts }
      | some (.error e)   => if ignoreError then { a with phase := .acting acts } else a.failed e
    some { gateway := g, activity, used := true }
  | .acting (.readVariables read :: acts) =>
    match read a.job with
    | .ok v =>
      some {
        gateway := g
        activity := { a with phase := .acting acts }
        notes := [.vars a.job.key v.render] }
    | .error e => some { gateway := g, activity := a.failed (.payload e) }
  | .sending s ignoreError acts =>
    match s.result? with
    | some (.ok ()) => some { gateway := g, activity := { a with phase := .acting acts } }
    | some (.error e) =>
      some {
        gateway := g
        activity := if ignoreError then { a with phase := .acting acts } else a.failed e }
    | none =>
      (s.step now false 0 g).map fun (gateway, s') =>
        { gateway
          activity := { a with phase := .sending s' ignoreError acts }
          lookups := (s.lookup? s').toList }
  | .finished _ => none

/-- The tick at which a waiting handler goes on. -/
def wake? (a : Activity) : Option Time :=
  match a.phase with
  | .sleeping due  => some due
  | .sending s _ _ => s.wake?
  | _              => none

end Activity

end JobWorker
