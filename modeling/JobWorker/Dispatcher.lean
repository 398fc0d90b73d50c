import JobWorker.Job
import JobWorker.Queue.Consumer

/-!
# `JobWorker.Dispatcher` — handing jobs to handlers

The dispatcher takes a slot first and a job second, so that no job leaves the queue before there is room for
its handling; with one slot jobs are handled strictly in order. A slot is taken along by the handling and
comes back with its end.

## Contents
- **Phases.** `Dispatcher`.
- **Steps.** `Dispatcher.step`, with `Dispatch` for what it does to the slots and the handlings.
-/

namespace JobWorker

/-- Where the dispatcher stands; behind `acquiring` it holds a slot. -/
inductive Dispatcher (α : Type) where
  | acquiring
  | fetching (consumer : Consumer α)
  | launching (job : α)
  | stopped
deriving Repr

/-- What a step of the dispatcher does besides. -/
inductive Dispatch (α : Type) where
  | nothing
  | takeSlot
  | returnSlot
  | launch (job : α)

namespace Dispatcher

variable {ι α : Type} [DecidableEq ι]

/-- The next step, if the dispatcher does not have to wait. Where the token and something else are ready,
`token` prefers the token. -/
def step (id : ι) (cancelled token : Bool) (freeSlots : Nat) (q : JobQueue ι α) :
    Dispatcher α → Option (JobQueue ι α × Dispatcher α × Dispatch α)
  | .acquiring =>
    if cancelled && (token || freeSlots == 0) then some (q, .stopped, .nothing)
    else if 0 < freeSlots then some (q, .fetching .checking, .takeSlot)
    else none
  | .fetching (.returned none) => some (q, .stopped, .returnSlot)
  | .fetching (.returned (some job)) => some (q, .launching job, .nothing)
  | .fetching consumer =>
    (consumer.step id cancelled token q).map fun (q, consumer) => (q, .fetching consumer, .nothing)
  | .launching job => some (q, .acquiring, .launch job)
  | .stopped => none

/-- Whether the loop is over. -/
def isStopped : Dispatcher α → Bool
  | .stopped => true
  | _        => false

end Dispatcher

end JobWorker
