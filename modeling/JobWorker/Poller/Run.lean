import JobWorker.Poller

/-!
# `JobWorker.Poller.Run` — a poller among others

A poller takes one turn after the other at a queue that it shares. Between any two of its steps others may act: the
two parts of the end of a handling may come at any time, and so may any other change of the queue; the gateway answers,
the token fires, and time passes.

## Contents
- **The type.** `PollerRun`, `PollerRun.start`.
- **Actions.** `PollerAction`, `PollerRun.perform`, `PollerRun.run`.
-/

namespace JobWorker

/-- A poller with its queue, its token and the clock. -/
structure PollerRun where
  queue : JobQueue Party Job
  poller : Poller
  cancelled : Bool := false
  now : Time := 0
deriving Repr

/-- What can happen around a poller: a turn begins, a step is made of it, in which `token` and `timer` choose between
what is ready at once, and an event comes from the gateway. A handling that ends counts its job down and then raises the
signal; `alter` is anything else that is done at the queue. -/
inductive PollerAction where
  | turn
  | step (token timer : Bool)
  | hear (event : CallEvent)
  | cancel
  | discount
  | release
  | alter (queue : JobQueue Party Job)
  | pass (ticks : Nat)

namespace PollerRun

/-- The poller of a worker in its first turn, at an empty queue. -/
def start (config : WorkerConfig) (now : Time) : PollerRun :=
  { queue := .ofMax config.maxJobsActive, poller := .start config, now }

/-- A turn begins, if the last one has ended. -/
def turn (r : PollerRun) : Option PollerRun :=
  match r.poller.phase with
  | .ended _ => some { r with poller := { r.poller with phase := .checking } }
  | _        => none

/-- Carries an action out, where it is possible. -/
def perform (action : PollerAction) (r : PollerRun) : Option PollerRun :=
  match action with
  | .turn             => r.turn
  | .step token timer =>
    (r.poller.step r.now r.cancelled token timer r.queue).map fun (queue, poller) => { r with queue, poller }
  | .hear event       => (r.poller.receive r.now event).map fun poller => { r with poller }
  | .cancel           => some { r with cancelled := true }
  | .discount         => some { r with queue := r.queue.discount }
  | .release          => some { r with queue := r.queue.release }
  | .alter queue      => some { r with queue := { queue with handled := r.queue.handled } }
  | .pass ticks       => some { r with now := r.now + ticks }

/-- Carries a list of actions out, where all of them are possible in turn. -/
def run : List PollerAction → PollerRun → Option PollerRun
  | [], r           => some r
  | action :: as, r => (r.perform action).bind (run as)

end PollerRun

end JobWorker
