import JobWorker.Signal
import JobWorker.Workload

/-!
# `JobWorker.Queue` — activated jobs that wait for a handler

Jobs leave in the order they came in. The count of jobs in hand goes up before a job enters the queue and
down when its handling is over, and each of the two raises a signal. The parts of these steps are separate
operations, because others may act between them.

## Contents
- **The type.** `JobQueue`, with waiters named by `ι` and jobs of type `α`.
- **Parts.** `count`, `store`, `announce` of a push; `discount`, `release` of the end of a handling; `pop?`.
- **Whole.** `push`, `finishJob`.
-/

namespace JobWorker

/-- Jobs that wait, the count of jobs in hand, and the signals of a push and of the end of a handling. -/
structure JobQueue (ι α : Type) where
  jobs : List α := []
  load : Workload
  available : Signal ι := {}
  handled : Signal ι := {}
deriving Repr

namespace JobQueue

variable {ι α : Type} [DecidableEq ι]

/-- An empty queue under a limit. -/
def ofMax (maxJobs : Nat) : JobQueue ι α := { load := .ofMax maxJobs }

/-- How many jobs are in hand. -/
def inHand (q : JobQueue ι α) : Nat := q.load.inHand

/-! ## Parts -/

/-- Counts a job that is about to enter. -/
def count (q : JobQueue ι α) : JobQueue ι α := { q with load := q.load.add }

/-- Puts a job at the end. -/
def store (job : α) (q : JobQueue ι α) : JobQueue ι α := { q with jobs := q.jobs ++ [job] }

/-- Tells a consumer that there is a job. -/
def announce (q : JobQueue ι α) : JobQueue ι α := { q with available := q.available.notify }

/-- Takes the first job. -/
def pop? (q : JobQueue ι α) : Option (α × JobQueue ι α) :=
  match q.jobs with
  | []        => none
  | job :: js => some (job, { q with jobs := js })

/-- Counts down a job whose handling is over. -/
def discount (q : JobQueue ι α) : JobQueue ι α := { q with load := q.load.remove }

/-- Tells the one who waits for room that there may be some. -/
def release (q : JobQueue ι α) : JobQueue ι α := { q with handled := q.handled.notify }

/-! ## Whole steps -/

/-- Adds a job. -/
def push (job : α) (q : JobQueue ι α) : JobQueue ι α := (q.count.store job).announce

/-- Ends the handling of a job. -/
def finishJob (q : JobQueue ι α) : JobQueue ι α := q.discount.release

end JobQueue

end JobWorker
