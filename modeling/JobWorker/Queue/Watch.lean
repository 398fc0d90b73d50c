import JobWorker.Queue.Capacity

/-!
# `JobWorker.Queue.Watch` — waiting for room again and again

Whoever fills the queue waits for room in one call after the other, each with an interval and a token of its own. Between
any two steps of a call others may act: the two parts of the end of a handling may come at any time, and so may any other
change of the queue; the token fires, and time passes. A call may also be left before it is over.

## Contents
- **Calls.** `RoomCall`, `RoomCall.begin`.
- **The type.** `Watch`, `Watch.isOpen`.
- **Actions.** `WatchAction`, `Watch.perform`, `Watch.run`.
-/

namespace JobWorker

/-! ## Calls -/

/-- A call that waits for room: for how long at most, when it began, whether its token has fired, and where it stands. -/
structure RoomCall where
  interval : Duration
  begun : Time
  cancelled : Bool
  wait : CapacityWait
deriving DecidableEq, Repr

/-- A call that begins at `now`. -/
def RoomCall.begin (now : Time) (interval : Duration) (cancelled : Bool) : RoomCall :=
  { interval, begun := now, cancelled, wait := .begin now interval }

/-! ## The type -/

/-- A queue with the one who waits for room there, and the last call. -/
structure Watch (ι α : Type) where
  who : ι
  queue : JobQueue ι α
  now : Time := 0
  call : Option RoomCall := none
deriving Repr

/-! ## Actions -/

/-- What can happen in a watch. Where several of token, signal and timer are ready in a step of the call, `token` and
`timer` choose between them. A handling that ends counts its job down and then raises the signal; `alter` is anything
else that is done at the queue. -/
inductive WatchAction (ι α : Type) where
  | begin (interval : Duration) (cancelled : Bool)
  | next (token timer : Bool)
  | leave
  | cancel
  | discount
  | release
  | alter (queue : JobQueue ι α)
  | pass (ticks : Nat)

namespace Watch

variable {ι α : Type} [DecidableEq ι]

/-- An empty queue under a limit, before the first call. -/
def ofMax (who : ι) (maxJobs : Nat) : Watch ι α := { who, queue := .ofMax maxJobs }

/-- Whether there is a call that is not over. -/
def isOpen (s : Watch ι α) : Bool := s.call.any fun call => !call.wait.isOver

/-- The next step of the call. -/
def next (token timer : Bool) (s : Watch ι α) : Option (Watch ι α) := do
  let call ← s.call
  let (queue, wait) ← call.wait.step s.who s.now call.cancelled token timer s.queue
  return { s with queue, call := some { call with wait } }

/-- Carries an action out, where it is possible. -/
def perform (action : WatchAction ι α) (s : Watch ι α) : Option (Watch ι α) :=
  match action with
  | .begin interval cancelled =>
    if s.isOpen then none else some { s with call := some (.begin s.now interval cancelled) }
  | .next token timer => s.next token timer
  | .leave            => s.call.map fun call => { s with queue := call.wait.forget s.who s.queue, call := none }
  | .cancel           => s.call.map fun call => { s with call := some { call with cancelled := true } }
  | .discount         => some { s with queue := s.queue.discount }
  | .release          => some { s with queue := s.queue.release }
  | .alter queue      => some { s with queue := { queue with handled := s.queue.handled } }
  | .pass ticks       => some { s with now := s.now + ticks }

/-- Carries a list of actions out, where all of them are possible in turn. -/
def run : List (WatchAction ι α) → Watch ι α → Option (Watch ι α)
  | [], s           => some s
  | action :: as, s => (s.perform action).bind (run as)

end Watch

end JobWorker
