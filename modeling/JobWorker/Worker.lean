import JobWorker.Dispatcher
import JobWorker.Handling
import JobWorker.Poller

/-!
# `JobWorker.Worker` — a worker with its poller, dispatcher and handlings

A worker is one value, and everything that can happen to it is an `Action`: a step of one of its parts, an
answer of the gateway, a step of a handler, the wish to close, or the passing of time. `Worker.perform`
carries an action out where it is possible. Whoever chooses the actions decides the interleaving, so that
what holds for every sequence of actions holds for every schedule, every gateway and every handler.

## Contents
- **Opening.** `Worker.openWith`, refused for settings a worker cannot run with.
- **Closing.** `Closing`: first the two loops have to end, then the handlings, within a limit of time.
- **Actions.** `Action`, `Worker.perform`, `Worker.run`.
-/

namespace JobWorker

/-- How far closing has come; when it is over, whether handlings were still going on. -/
inductive Closing where
  | notAsked
  | endingLoops
  | endingHandlings (due : Time)
  | finished (timedOut : Bool)
deriving DecidableEq, Repr

/-- A worker. -/
structure Worker where
  config : WorkerConfig
  kind : HandlerKind
  now : Time := 0
  cancelled : Bool := false
  queue : JobQueue Party Job
  poller : Poller
  dispatcher : Dispatcher Job := .acquiring
  freeSlots : Nat
  launched : Nat := 0
  handlings : List Handling := []
  closing : Closing := .notAsked
deriving Repr

/-- What can happen to a worker. In the actions of its parts `token` and `timer` choose between things that
are ready at once. -/
inductive Action where
  | poll (token timer : Bool)
  | pollAgain
  | gateway (event : CallEvent)
  | dispatch (token : Bool)
  | handle (id : Nat)
  | retire (id : Nat)
  | use (id : Nat)
  | finish (id : Nat) (result : HandlerResult)
  | collapse (id : Nat)
  | answer (id : Nat)
  | cancel
  | close
  | endLoops
  | endHandlings (timer : Bool)
  | pass (ticks : Nat)

namespace Worker

/-! ## Opening -/

/-- A worker just opened at tick `now`. -/
def start (config : WorkerConfig) (kind : HandlerKind) (now : Time) : Worker :=
  { config, kind, now
    queue := .ofMax config.maxJobsActive
    poller := .start config
    freeSlots := max config.handlerThreads 1 }

/-- Opens a worker; it needs settings it can run with, and a handler. -/
def openWith (config : WorkerConfig) (kind : Option HandlerKind) (now : Time) :
    Except ClientError Worker := do
  config.check
  match kind with
  | some kind => return start config kind now
  | none      => throw (.setting .noHandler)

/-! ## Views -/

/-- Jobs queued or being handled. -/
def inHand (w : Worker) : Nat := w.queue.inHand

/-- Whether closing was asked for. -/
def isClosed (w : Worker) : Bool := w.closing != .notAsked

/-- Whether both loops have ended. -/
def loopsEnded (w : Worker) : Bool := w.poller.isStopped && w.dispatcher.isStopped

/-- Debugging text of a worker. -/
def inspect (w : Worker) : String :=
  "JobWorker \x7b job_type: " ++ Text.quote w.config.jobType ++ ", worker_name: " ++
    Text.quote w.config.workerName ++ ", occupancy: " ++ toString w.inHand ++ ", closed: " ++
    (if w.isClosed then "true" else "false") ++ " \x7d"

/-- The handling with a number. -/
def handling? (w : Worker) (id : Nat) : Option Handling := w.handlings.find? (·.id == id)

/-- The worker with one handling replaced by its next state. -/
def setHandling (w : Worker) (h : Handling) : Worker :=
  { w with handlings := w.handlings.map fun other => if other.id == h.id then h else other }

/-- The worker without a handling, whose slot is free again. -/
def dropHandling (w : Worker) (id : Nat) : Worker :=
  { w with
    handlings := w.handlings.filter fun other => !(other.id == id)
    freeSlots := w.freeSlots + 1 }

/-! ## Actions -/

/-- A step of the poller. -/
def poll (token timer : Bool) (w : Worker) : Option Worker :=
  (w.poller.step w.now w.cancelled token timer w.queue).map fun (queue, poller) =>
    { w with queue, poller }

/-- What a step of the dispatcher does to slots and handlings. -/
def apply (d : Dispatch Job) (w : Worker) : Worker :=
  match d with
  | .nothing    => w
  | .takeSlot   => { w with freeSlots := w.freeSlots - 1 }
  | .returnSlot => { w with freeSlots := w.freeSlots + 1 }
  | .launch job =>
    { w with
      launched := w.launched + 1
      handlings := w.handlings ++ [{ id := w.launched, job }] }

/-- A step of the dispatcher. -/
def dispatch (token : Bool) (w : Worker) : Option Worker :=
  (w.dispatcher.step .dispatcher w.cancelled token w.freeSlots w.queue).map
    fun (queue, dispatcher, effect) => ({ w with queue, dispatcher }).apply effect

/-- A handling's own step. -/
def handle (id : Nat) (w : Worker) : Option Worker := do
  let h ← w.handling? id
  let (queue, h) ← h.step w.config w.kind w.queue
  return { w with queue }.setHandling h

/-- The end of a handling that has nothing left but to give its slot back. -/
def retire (id : Nat) (w : Worker) : Option Worker := do
  let h ← w.handling? id
  match h.phase with
  | .releasing => some (w.dropHandling id)
  | _          => none

/-- A breakdown while an asynchronous handler is being made: the handling is gone. -/
def collapse (id : Nat) (w : Worker) : Option Worker := do
  let h ← w.handling? id
  match h.phase with
  | .calling => some (w.dropHandling id)
  | _        => none

/-- Closing goes on to the handlings when both loops have ended. -/
def endLoops (w : Worker) : Option Worker :=
  if w.closing = .endingLoops ∧ w.loopsEnded = true then
    some { w with closing := .endingHandlings (Time.after w.now w.config.shutdownTimeout) }
  else none

/-- Closing is over when no handling is left, or when its time is up; `timer` prefers the latter. -/
def endHandlings (timer : Bool) (w : Worker) : Option Worker :=
  match w.closing with
  | .endingHandlings due =>
    let up := decide (due ≤ w.now)
    if w.handlings.isEmpty && !(timer && up) then some { w with closing := .finished false }
    else if up then some { w with closing := .finished true }
    else none
  | _ => none

/-- Carries an action out, where it is possible. -/
def perform (action : Action) (w : Worker) : Option Worker :=
  match action with
  | .poll token timer    => w.poll token timer
  | .pollAgain           => w.poller.again.map fun poller => { w with poller }
  | .gateway event       =>
    match event with
    | .cancelled =>
      if w.cancelled then (w.poller.receive w.now event).map fun poller => { w with poller }
      else none
    | _ => (w.poller.receive w.now event).map fun poller => { w with poller }
  | .dispatch token      => w.dispatch token
  | .handle id           => w.handle id
  | .retire id           => w.retire id
  | .use id              => (w.handling? id).bind fun h => h.use.map w.setHandling
  | .finish id result    => (w.handling? id).bind fun h => (h.finish result).map w.setHandling
  | .collapse id         => w.collapse id
  | .answer id           => (w.handling? id).bind fun h => h.answered.map w.setHandling
  | .cancel              => some { w with cancelled := true }
  | .close               =>
    if w.isClosed then some w else some { w with cancelled := true, closing := .endingLoops }
  | .endLoops            => w.endLoops
  | .endHandlings timer  => w.endHandlings timer
  | .pass ticks          => some { w with now := w.now + ticks }

/-- Carries a list of actions out, where all of them are possible in turn. -/
def run : List Action → Worker → Option Worker
  | [], w           => some w
  | action :: as, w => (w.perform action).bind (run as)

end Worker

end JobWorker
