import JobWorker.Deployment
import JobWorker.Simulation.Machine
import JobWorker.Simulation.Script

/-!
# `JobWorker.Simulation.Workshop` — a whole worker in virtual time

A worker stands before a gateway in memory, and its handlers follow scripts. Every change to the worker is
a `Move` of its deployment; the workshop only chooses, in the order of a single line, which one comes next,
and runs the handlers.

## Contents
- **The type.** `Workshop`, `Workshop.Actor`.
- **Steps.** `stepPoller`, `stepHandling`, `stepHandler`, `Workshop.machine`.
- **Operations.** `open`, `changeGateway`, `pass`, `close`, `drop`.
-/

namespace JobWorker

/-- A worker at a gateway, with scripts for its handlers. `held` tells whether anyone still holds the worker;
one that was dropped goes on with the jobs it has taken. -/
structure Workshop where
  gateway : Gateway := {}
  retry : RetryDelay
  scripts : Int → Script
  worker : Option Worker := none
  held : Bool := false
  link : Link := .idle
  activities : List (Nat × Activity) := []
  notes : List LogEntry := []
  lookups : List Nat := []
  now : Time := 0

namespace Workshop

/-- Those who act: the two loops, each handling and its handler, and whoever closes the worker. -/
inductive Actor where
  | poller
  | dispatcher
  | handling (id : Nat)
  | handler (id : Nat)
  | closer
deriving DecidableEq

/-! ## Steps -/

/-- Carries a move out. -/
def move (move : Move) (s : Workshop) : Option Workshop := do
  let worker ← s.worker
  let d ← ({ worker, gateway := s.gateway, link := s.link } : Deployment).perform move
  return { s with worker := some d.worker, gateway := d.gateway, link := d.link }

/-- Carries an action of the worker out. -/
def act (action : Action) (s : Workshop) : Option Workshop := s.move (.worker action)

/-- A step of the poller, or of its call at the gateway. -/
def stepPoller (s : Workshop) : Option Workshop := do
  let w ← s.worker
  match w.poller.phase with
  | .ended _   => s.act .pollAgain
  | .calling _ => s.move (.call true true)
  | _          => s.act (.poll true true)

/-- A step of a handling; its report is answered at once. -/
def stepHandling (id : Nat) (s : Workshop) : Option Workshop := do
  let w ← s.worker
  let h ← w.handling? id
  match h.phase with
  | .reporting _ => s.move (.report id)
  | .releasing   => s.act (.retire id)
  | _            => s.act (.handle id)

/-- The handler at work in a handling, from the moment it runs. -/
def activity? (id : Nat) (s : Workshop) : Option Activity := do
  let w ← s.worker
  let h ← w.handling? id
  match h.phase, List.lookup id s.activities with
  | .running, some a => some a
  | .running, none   => some { job := h.job, script := s.scripts h.job.key }
  | _, _             => none

/-- A step of a handler; one that came back ends its handling's wait. -/
def stepHandler (id : Nat) (s : Workshop) : Option Workshop := do
  let w ← s.worker
  let a ← s.activity? id
  let others := s.activities.filter fun entry => !(entry.1 == id)
  match a.result? with
  | some result => act (.finish id result) { s with activities := others }
  | none =>
    let done ← a.step w.kind s.retry s.now s.gateway
    let s := { s with
      gateway := done.gateway
      activities := (id, done.activity) :: others
      notes := s.notes ++ done.notes
      lookups := s.lookups ++ done.lookups }
    if done.used then s.act (.use id) else return s

/-- The next step of an actor, if it does not have to wait. -/
def step (who : Actor) (s : Workshop) : Option Workshop :=
  match who with
  | .poller      => s.stepPoller
  | .dispatcher  => s.act (.dispatch true)
  | .handling id => s.stepHandling id
  | .handler id  => s.stepHandler id
  | .closer      => (s.act .endLoops).orElse fun _ => s.act (.endHandlings false)

/-- Everyone who may act. -/
def actors (s : Workshop) : List Actor :=
  match s.worker with
  | none   => []
  | some w =>
    [.poller, .dispatcher, .closer] ++
      w.handlings.flatMap fun h => [.handling h.id, .handler h.id]

/-- The tick for which an actor waits. -/
def wake? (who : Actor) (s : Workshop) : Option Time := do
  let w ← s.worker
  match who with
  | .poller =>
    match w.poller.phase with
    | .calling _ => s.link.wake?
    | _          => w.poller.wake?
  | .handler id => (← s.activity? id).wake?
  | .closer =>
    match w.closing with
    | .endingHandlings due => some due
    | _                    => none
  | _ => none

/-- The workshop at a later tick. -/
def setNow (t : Time) (s : Workshop) : Workshop :=
  { s with
    now := t
    worker := s.worker.bind fun w => w.perform (.pass (t - w.now)) }

/-- The workshop in time. -/
def machine : Machine Workshop Actor := { actors, step, wake?, now := (·.now), setNow }

/-! ## Operations -/

/-- Opens a worker, or tells why it cannot be opened. -/
def openWorker (config : WorkerConfig) (kind : Option HandlerKind) (s : Workshop) :
    Workshop × Except ClientError Unit :=
  match Worker.openWith config kind s.now with
  | .ok w    => (machine.settle { s with worker := some w, held := true }, .ok ())
  | .error e => (s, .error e)

/-- Changes the gateway, and lets everything happen that follows at once. -/
def changeGateway (f : Gateway → Gateway) (s : Workshop) : Workshop :=
  machine.settle { s with gateway := f s.gateway }

/-- Lets time pass. -/
def pass (ticks : Time) (s : Workshop) : Workshop := machine.pass ticks s

/-- Whether closing is going on. -/
def isClosing (s : Workshop) : Bool :=
  s.worker.any fun w => match w.closing with
    | .endingLoops       => true
    | .endingHandlings _ => true
    | _                  => false

/-- Closes the worker that is held, and waits until it is closed. -/
def close (s : Workshop) : Workshop :=
  if s.held then
    match s.act .close with
    | some s => machine.runWhile isClosing Machine.patience s
    | none   => s
  else s

/-- Lets go of the worker, which then stops without anyone waiting. -/
def drop (s : Workshop) : Workshop :=
  if s.held then machine.settle { ((s.act .cancel).getD s) with held := false } else s

/-- The worker, while it is held. -/
def heldWorker? (s : Workshop) : Option Worker := if s.held then s.worker else none

end Workshop

end JobWorker
