import JobWorker.Queue.Crowd

/-!
# `JobWorker.Queue.Traffic` — pushes and consumers that overlap at one queue

In a crowd a push is done at once, and a poll goes on up to the next wait or the result. In traffic neither does: a push
goes through its three parts and a consumer through its looks at the token, the queue and the signal, one at a time.
Between any two of these anybody else may act, and any token may fire.

Pushes are numbered in the order in which they begin, as consumers are, and keep their place in the list.

## Contents
- **Pushes.** `PushPhase`, `Push`, `Push.step`.
- **The type.** `Traffic`.
- **Actions.** `TrafficAction`, `Traffic.perform`, `Traffic.run`.
-/

namespace JobWorker

/-! ## Pushes -/

/-- How far a push has come: its job is counted, then put into the queue, then announced. -/
inductive PushPhase where
  | begun
  | counted
  | stored
  | announced
deriving DecidableEq, Repr

/-- A push of a job. -/
structure Push (α : Type) where
  job : α
  phase : PushPhase := .begun
deriving Repr

namespace Push

variable {ι α : Type} [DecidableEq ι]

/-- The next part of a push, if there is one left. -/
def step (q : JobQueue ι α) (p : Push α) : Option (JobQueue ι α × Push α) :=
  match p.phase with
  | .begun     => some (q.count, { p with phase := .counted })
  | .counted   => some (q.store p.job, { p with phase := .stored })
  | .stored    => some (q.announce, { p with phase := .announced })
  | .announced => none

/-- Whether the job has been put into the queue. -/
def isStored (p : Push α) : Bool :=
  match p.phase with
  | .begun | .counted    => false
  | .stored | .announced => true

end Push

/-! ## The type -/

/-- A queue with its consumers and the pushes that were begun. -/
structure Traffic (α : Type) extends Crowd α where
  pushes : List (Push α) := []
deriving Repr

/-! ## Actions -/

/-- What can happen in traffic. Where the token and the wake-up of a consumer are both ready, `token` says which is
noticed. The two parts of the end of a handling may come at any time. -/
inductive TrafficAction (α : Type) where
  | offer (job : α)
  | push (id : Nat)
  | join (cancelled : Bool)
  | cancel (id : Nat)
  | next (id : Nat) (token : Bool)
  | leave (id : Nat)
  | discount
  | release

namespace Traffic

variable {α : Type}

/-- An empty queue under a limit, without consumers and pushes. -/
def ofMax (maxJobs : Nat) : Traffic α := { toCrowd := .ofMax maxJobs }

/-- The traffic with another queue. -/
def setQueue (queue : JobQueue Nat α) (s : Traffic α) : Traffic α := { s with queue }

/-- The traffic with the place of one consumer replaced. -/
def setMember (id : Nat) (m : Option (Member α)) (s : Traffic α) : Traffic α :=
  { s with toCrowd := s.toCrowd.setMember id m }

/-- The next part of a push. -/
def push (id : Nat) (s : Traffic α) : Option (Traffic α) := do
  let p ← s.pushes[id]?
  let (queue, p) ← p.step s.queue
  return { s with queue, pushes := s.pushes.set id p }

/-- The next step of a consumer. -/
def next (id : Nat) (token : Bool) (s : Traffic α) : Option (Traffic α) := do
  let m ← s.member? id
  let (queue, consumer) ← m.consumer.step id m.cancelled token s.queue
  return (s.setQueue queue).setMember id (some { m with consumer })

/-- A consumer leaves without a result, which it can do where it is about to look at its token, and while it waits. -/
def leave (id : Nat) (s : Traffic α) : Option (Traffic α) := do
  let m ← s.member? id
  match m.consumer with
  | .checking | .parked => some ((s.setQueue (m.consumer.forget id s.queue)).setMember id none)
  | _                   => none

/-- Carries an action out, where it is possible. -/
def perform (action : TrafficAction α) (s : Traffic α) : Option (Traffic α) :=
  match action with
  | .offer job      => some { s with pushes := s.pushes ++ [{ job }] }
  | .push id        => s.push id
  | .join cancelled => some { s with members := s.members ++ [some { cancelled }] }
  | .cancel id      => (s.member? id).map fun m => s.setMember id (some { m with cancelled := true })
  | .next id token  => s.next id token
  | .leave id       => s.leave id
  | .discount       => some (s.setQueue s.queue.discount)
  | .release        => some (s.setQueue s.queue.release)

/-- Carries a list of actions out, where all of them are possible in turn. -/
def run : List (TrafficAction α) → Traffic α → Option (Traffic α)
  | [], s           => some s
  | action :: as, s => (s.perform action).bind (run as)

end Traffic

end JobWorker
