import JobWorker.Clock
import JobWorker.Queue

/-!
# `JobWorker.Queue.Capacity` — waiting for room

Whoever fills the queue waits, while it is full enough, for the end of a handling, for the end of an
interval, or for its token, whichever comes first.

## Contents
- **Phases.** `CapacityWait`, `CapacityWait.isOver`.
- **Steps.** `CapacityWait.begin`, `CapacityWait.step`, `CapacityWait.wake?`.
- **Leaving.** `CapacityWait.forget`.
-/

namespace JobWorker

/-- Where a wait for room stands; when it is over, whether the token ended it. -/
inductive CapacityWait where
  | entering (due : Time)
  | parked (due : Time)
  | finished (cancelled : Bool)
deriving DecidableEq, Repr

namespace CapacityWait

variable {ι α : Type} [DecidableEq ι]

/-- Whether a wait is over. -/
def isOver : CapacityWait → Bool
  | .finished _ => true
  | _           => false

/-- A wait that begins at `now` and lasts at most an interval. -/
def begin (now : Time) (interval : Duration) : CapacityWait := .entering (Time.after now interval)

/-- The next step of waiter `id`. Where several of token, signal and timer are ready, `token` prefers the
token to the others and `timer` the timer to the signal. -/
def step (id : ι) (now : Time) (cancelled token timer : Bool) (q : JobQueue ι α) :
    CapacityWait → Option (JobQueue ι α × CapacityWait)
  | .entering due =>
    if cancelled && (token || !(q.handled.stored || decide (due ≤ now))) then
      some (q, .finished true)
    else if decide (due ≤ now) && (timer || !q.handled.stored) then some (q, .finished false)
    else
      let (signal, woken) := q.handled.wait id
      some ({ q with handled := signal }, if woken then .finished false else .parked due)
  | .parked due =>
    let woken := decide (id ∈ q.handled.woken)
    let left := { q with handled := q.handled.leave id }
    if cancelled && (token || !(woken || decide (due ≤ now))) then some (left, .finished true)
    else if decide (due ≤ now) && (timer || !woken) then some (left, .finished false)
    else (q.handled.take? id).map fun signal => ({ q with handled := signal }, .finished false)
  | .finished _ => none

/-- The tick at which the interval ends for one who waits. -/
def wake? : CapacityWait → Option Time
  | .parked due => some due
  | _           => none

/-- The queue after waiter `id` left. -/
def forget (id : ι) (q : JobQueue ι α) : CapacityWait → JobQueue ι α
  | .parked _ => { q with handled := q.handled.leave id }
  | _         => q

end CapacityWait

end JobWorker
