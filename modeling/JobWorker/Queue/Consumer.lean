import JobWorker.Queue

/-!
# `JobWorker.Queue.Consumer` — taking the next job

A consumer looks at its token, then at the queue, and waits for the signal of a push only after it found
the queue empty; after a wake-up it begins again. Each look is a step of its own. Where the token and the
signal are both ready, either may be noticed first, and the argument `token` says which.

## Contents
- **Phases.** `Consumer`.
- **Steps.** `Consumer.step`; `Consumer.poll`, all steps up to a wait or a result.
- **Leaving.** `Consumer.forget`, `Consumer.isWoken`.
-/

namespace JobWorker

/-- Where a consumer stands. -/
inductive Consumer (α : Type) where
  | checking
  | looking
  | entering
  | parked
  | returned (job : Option α)
deriving Repr

namespace Consumer

variable {ι α : Type} [DecidableEq ι]

/-- The next step of consumer `id`, if it does not have to wait. -/
def step (id : ι) (cancelled token : Bool) (q : JobQueue ι α) :
    Consumer α → Option (JobQueue ι α × Consumer α)
  | .checking => some (q, if cancelled then .returned none else .looking)
  | .looking =>
    match q.pop? with
    | some (job, q) => some (q, .returned (some job))
    | none          => some (q, .entering)
  | .entering =>
    if cancelled && (token || !q.available.stored) then some (q, .returned none)
    else
      let (signal, woken) := q.available.wait id
      some ({ q with available := signal }, if woken then .checking else .parked)
  | .parked =>
    if cancelled && (token || decide (id ∉ q.available.woken)) then
      some ({ q with available := q.available.leave id }, .returned none)
    else (q.available.take? id).map fun signal => ({ q with available := signal }, .checking)
  | .returned _ => none

/-- At most `n` steps, up to a wait or a result. -/
def steps (id : ι) (cancelled token : Bool) : Nat → JobQueue ι α → Consumer α → JobQueue ι α × Consumer α
  | 0, q, c => (q, c)
  | n + 1, q, c =>
    match step id cancelled token q c with
    | some (q, c) => steps id cancelled token n q c
    | none        => (q, c)

/-- All steps up to a wait or a result: at most one round for a wake-up that was stored, and one more. -/
def poll (id : ι) (cancelled token : Bool) (q : JobQueue ι α) (c : Consumer α) :
    JobQueue ι α × Consumer α :=
  steps id cancelled token 8 q c

/-- The queue after a consumer left. -/
def forget (id : ι) (q : JobQueue ι α) (c : Consumer α) : JobQueue ι α :=
  match c with
  | .parked => { q with available := q.available.leave id }
  | _       => q

/-- Whether something happened that a waiting consumer has not noticed. -/
def isWoken (id : ι) (cancelled : Bool) (q : JobQueue ι α) (c : Consumer α) : Bool :=
  match c with
  | .parked => cancelled || decide (id ∈ q.available.woken)
  | _       => false

end Consumer

end JobWorker
