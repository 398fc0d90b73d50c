import JobWorker.Gateway.Link
import JobWorker.Poller.Run
import JobWorker.Queue.Consumer
import JobWorker.Simulation.Counter

/-!
# `JobWorker.Simulation.Intake` — a poller that is moved turn by turn

A poller with its queue stands before a gateway in memory. It takes one turn at a time, while events that
were arranged beforehand happen.

## Contents
- **Events.** `IntakeEvent`.
- **The type.** `Intake`.
- **Operations.** `change`, `next`, `turn`.
-/

namespace JobWorker

/-- What can happen around a poller. -/
inductive IntakeEvent where
  | push (batch : Batch)
  | failActivations (status : Status) (times : Nat)
  | enqueue (job : Job)
  | handled
  | cancel

/-- A poller with its link to a gateway, and arranged events. -/
structure Intake extends PollerRun where
  gateway : Gateway := {}
  link : Link := .idle
  pending : List (Arranged IntakeEvent) := []

namespace Intake

/-- A poller that has taken no turn. -/
def ofConfig (config : WorkerConfig) : Intake :=
  { queue := .ofMax config.maxJobsActive
    poller := { Poller.start config with phase := .ended .polling } }

/-- Something happens around the poller, where it is possible. -/
def act? (action : PollerAction) (s : Intake) : Option Intake :=
  (s.toPollerRun.perform action).map fun run => { s with toPollerRun := run }

/-- Something happens around the poller, if it is possible. -/
def act (action : PollerAction) (s : Intake) : Intake := (s.act? action).getD s

/-- Makes an event happen. -/
def happen (event : IntakeEvent) (s : Intake) : Intake :=
  match event with
  | .push batch                   => { s with gateway := s.gateway.push batch }
  | .failActivations status times => { s with gateway := s.gateway.failActivations status times }
  | .enqueue job                  => s.act (.alter (s.queue.push job))
  | .handled                      => (s.act .discount).act .release
  | .cancel                       => s.act .cancel

/-- The poller, and the arranged events. -/
inductive Actor where
  | poller
  | arranged
deriving DecidableEq

/-- A step of the poller's call at the gateway. -/
def stepLink (s : Intake) : Option Intake := do
  let (gateway, link, event) ← s.link.step s.now s.cancelled true true s.poller.request s.gateway
  let s := { s with gateway, link }
  match event with
  | none       => return s
  | some event => s.act? (.hear event)

/-- The next step of an actor. -/
def step (who : Actor) (s : Intake) : Option Intake :=
  match who with
  | .poller =>
    match s.poller.phase with
    | .calling _ => s.stepLink
    | _ => s.act? (.step true true)
  | .arranged =>
    (Arranged.takeDue? s.now s.pending).map fun (event, pending) =>
      ({ s with pending }).happen event

/-- The poller in time. -/
def machine : Machine Intake Actor where
  actors _ := [.poller, .arranged]
  step := step
  wake? who s := match who with
    | .poller =>
      match s.poller.phase with
      | .calling _ => s.link.wake?
      | _          => s.poller.wake?
    | .arranged => Arranged.wake? s.pending
  now s := s.now
  setNow t s := { s with now := t }

/-- Makes an event happen now, and everything that follows at once. -/
def change (event : IntakeEvent) (s : Intake) : Intake := machine.settle (s.happen event)

/-- Takes the next job if there is one: `none` if a consumer would have to wait. -/
def next (s : Intake) : Intake × Option (Option Job) :=
  let (queue, c) := Consumer.checking.poll .dispatcher s.cancelled true s.queue
  let queue := c.forget .dispatcher queue
  match c with
  | .returned job => ({ s with queue }, some job)
  | _             => ({ s with queue }, none)

/-- How a turn ended, after how many ticks, and what was asked for in it. -/
structure TurnReport where
  turn : Option Turn
  elapsed : Time
  asked : List Int

/-- Whether the poller is within a turn. -/
def isBusy (s : Intake) : Bool :=
  match s.poller.phase with
  | .ended _ => false
  | _        => true

/-- Takes one turn, while the arranged events happen. -/
def turn (events : List (Time × IntakeEvent)) (s : Intake) : Intake × TurnReport :=
  let begun := s.now
  let known := s.gateway.requests.length
  let s := machine.runWhile isBusy Machine.patience
    { s.act .turn with pending := Arranged.add s.now events s.pending }
  let report : TurnReport :=
    { turn := match s.poller.phase with
        | .ended turn => some turn
        | _           => none
      elapsed := s.now - begun
      asked := (s.gateway.requests.drop known).map (·.maxJobs) }
  (machine.settle s, report)

end Intake

end JobWorker
