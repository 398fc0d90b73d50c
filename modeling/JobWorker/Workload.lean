/-!
# `JobWorker.Workload` — when to ask for more jobs

A worker counts the jobs it has been given and not yet handled. It asks for more only below three fifths of
its limit, rounded up, and then for everything that is missing to the limit.

## Contents
- **The type.** `Workload`, `Workload.ofMax` (a limit of zero is raised to one).
- **Questions.** `refillLevel`, `wantsMore`, `room`.
- **Counting.** `add`, and `remove`, which stops at zero.
-/

namespace JobWorker

/-- The limit of jobs in hand, and how many there are. -/
structure Workload where
  maxJobs : Nat
  inHand : Nat := 0
deriving DecidableEq, Repr

namespace Workload

/-- Nothing in hand, under a limit of at least one. -/
def ofMax (maxJobs : Nat) : Workload := { maxJobs := max maxJobs 1 }

/-- Three fifths of the limit, rounded up. -/
def refillLevel (load : Workload) : Nat := (load.maxJobs * 3 + 4) / 5

/-- Whether it is time to ask for more. -/
def wantsMore (load : Workload) : Bool := decide (load.inHand < load.refillLevel)

/-- How many jobs are missing to the limit. -/
def room (load : Workload) : Nat := load.maxJobs - load.inHand

/-- One more job in hand. -/
def add (load : Workload) : Workload := { load with inHand := load.inHand + 1 }

/-- One job less in hand. -/
def remove (load : Workload) : Workload := { load with inHand := load.inHand - 1 }

end Workload

end JobWorker
