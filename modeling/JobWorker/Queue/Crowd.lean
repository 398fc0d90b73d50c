import JobWorker.Queue.Consumer

/-!
# `JobWorker.Queue.Crowd` — consumers side by side at one queue

Any number of consumers may wait for jobs at one queue, each with a token of its own. A consumer that is polled goes on
up to its next wait or its result before anybody else acts; in between jobs are pushed, tokens fire, and further
consumers come, in any order. A consumer may also leave without a result.

Consumers are numbered in the order in which they come, and keep their place in the list; the place of one that left is
empty.

## Contents
- **The type.** `Member`, `Crowd`, `Crowd.member?`.
- **Actions.** `CrowdAction`, `Crowd.perform`, `Crowd.run`.
-/

namespace JobWorker

/-- A consumer in a crowd, and whether its token has fired. -/
structure Member (α : Type) where
  consumer : Consumer α := .checking
  cancelled : Bool := false
deriving Repr

/-- A queue with its consumers. -/
structure Crowd (α : Type) where
  queue : JobQueue Nat α
  members : List (Option (Member α)) := []
deriving Repr

/-- What can happen in a crowd. Where the token and the wake-up of a consumer are both ready as it is polled, `token`
says which is noticed. -/
inductive CrowdAction (α : Type) where
  | push (job : α)
  | finish
  | join (cancelled : Bool)
  | cancel (id : Nat)
  | poll (id : Nat) (token : Bool)
  | leave (id : Nat)

namespace Crowd

variable {α : Type}

/-- An empty queue under a limit, and no consumers. -/
def ofMax (maxJobs : Nat) : Crowd α := { queue := .ofMax maxJobs }

/-- The consumer with a number, if it has come and has not left. -/
def member? (id : Nat) (s : Crowd α) : Option (Member α) := s.members[id]?.join

/-- The crowd with one place replaced. -/
def setMember (id : Nat) (m : Option (Member α)) (s : Crowd α) : Crowd α := { s with members := s.members.set id m }

/-- Moves a consumer until it has to wait or has its result. -/
def poll (id : Nat) (token : Bool) (s : Crowd α) : Option (Crowd α) := do
  let m ← s.member? id
  let (queue, consumer) := m.consumer.poll id m.cancelled token s.queue
  return { s with queue }.setMember id (some { m with consumer })

/-- Carries an action out, where it is possible. -/
def perform (action : CrowdAction α) (s : Crowd α) : Option (Crowd α) :=
  match action with
  | .push job       => some { s with queue := s.queue.push job }
  | .finish         => some { s with queue := s.queue.finishJob }
  | .join cancelled => some { s with members := s.members ++ [some { cancelled }] }
  | .cancel id      => (s.member? id).map fun m => s.setMember id (some { m with cancelled := true })
  | .poll id token  => s.poll id token
  | .leave id       => (s.member? id).map fun m => { s with queue := m.consumer.forget id s.queue }.setMember id none

/-- Carries a list of actions out, where all of them are possible in turn. -/
def run : List (CrowdAction α) → Crowd α → Option (Crowd α)
  | [], s           => some s
  | action :: as, s => (s.perform action).bind (run as)

end Crowd

end JobWorker
