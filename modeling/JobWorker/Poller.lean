import JobWorker.Activation
import JobWorker.Config.Worker
import JobWorker.Queue.Capacity

/-!
# `JobWorker.Poller` — keeping the queue filled

The poller goes round in turns. A turn ends at once under a token that has fired. While enough jobs are in
hand it is an idle turn: it waits for room. Otherwise it asks the gateway for what is missing and puts every
job that comes into the queue. A call that failed for good is followed by one whole interval of rest; one
that merely ended without jobs is not.

Between any two steps others may act, so every look at the token, the count of jobs and the queue is a step
of its own, and so are the three parts of a push. What comes from the gateway comes from outside, as a
`CallEvent`.

## Contents
- **Results.** `Turn`.
- **Phases.** `PollPhase`, `Poller`, `Poller.start`.
- **Own steps.** `Poller.step`, `Poller.wake?`.
- **Steps from outside.** `Poller.receive`.
- **Rounds.** `Poller.again`: a loop takes turns until one is stopped.
-/

namespace JobWorker

/-- Who waits inside a worker. -/
inductive Party where
  | poller
  | dispatcher
deriving DecidableEq, Repr

/-- How a turn of the poller ended. -/
inductive Turn where
  | idle
  | polling
  | stopped
deriving DecidableEq, Repr

/-- Where the poller stands in its turn. While jobs are put into the queue `counted` and `stored` tell how
much of a push has been done. -/
inductive PollPhase where
  | checking
  | measuring
  | waiting (wait : CapacityWait)
  | sizing
  | calling (call : Activation)
  | delivering (call : Activation) (jobs : List Job)
  | counted (call : Activation) (job : Job) (jobs : List Job)
  | stored (call : Activation) (jobs : List Job)
  | resting (due : Time)
  | ended (turn : Turn)
deriving Repr

/-- A poller: the request it sends, its interval, and where it stands. -/
structure Poller where
  request : ActivationRequest
  interval : Duration
  phase : PollPhase := .checking
deriving Repr

/-- The largest number of jobs that a request can ask for. -/
def maxRequested : Nat := maxSigned32

namespace Poller

/-- The poller of a worker before its first turn. -/
def start (config : WorkerConfig) : Poller :=
  { request := {
      jobType := config.jobType
      worker := config.workerName
      timeout := config.timeout.millisUpTo maxSigned64
      maxJobs := 0
      fetchVariables := config.fetchVariables
      requestTimeout := config.pollingTimeout.millisUpTo maxSigned64
      tenantIds := config.tenantIds }
    interval := config.pollInterval }

/-- What the result of a call leads to. -/
def conclude (now : Time) (p : Poller) : Except ClientError Nat → PollPhase
  | .ok _             => .ended .polling
  | .error .cancelled => .ended .stopped
  | .error e          =>
    if e.endsPoll then .ended .polling else .resting (Time.after now p.interval)

/-- Goes on with a call whose events so far led to `call`. -/
def follow (now : Time) (call : Activation) (p : Poller) : Poller :=
  { p with phase := match call with
    | .finished result => p.conclude now result
    | _                => .calling call }

/-- What an event of the open call leads to; without an open call there is none. -/
def receive (now : Time) (event : CallEvent) (p : Poller) : Option Poller :=
  match p.phase with
  | .calling call =>
    match call.on event with
    | (call, some jobs) => some { p with phase := .delivering call jobs }
    | (call, none)      => some (p.follow now call)
  | _ => none

/-- The poller's own next step, if it does not have to wait. `token` and `timer` choose between what is
ready at once, as in `CapacityWait.step`. -/
def step (now : Time) (cancelled token timer : Bool) (q : JobQueue Party Job) (p : Poller) :
    Option (JobQueue Party Job × Poller) :=
  match p.phase with
  | .checking  => some (q, { p with phase := if cancelled then .ended .stopped else .measuring })
  | .measuring =>
    some (q, { p with phase :=
      if q.load.wantsMore then .sizing else .waiting (.begin now p.interval) })
  | .waiting (.finished stopped) => some (q, { p with phase := .ended (if stopped then .stopped else .idle) })
  | .waiting wait =>
    (wait.step .poller now cancelled token timer q).map fun (q, wait) =>
      (q, { p with phase := .waiting wait })
  | .sizing =>
    let maxJobs : Int := min q.load.room maxRequested
    some (q, { p with request := { p.request with maxJobs }, phase := .calling .opening })
  | .calling _ => none
  | .delivering call [] => some (q, p.follow now call)
  | .delivering call (job :: jobs) => some (q.count, { p with phase := .counted call job jobs })
  | .counted call job jobs => some (q.store job, { p with phase := .stored call jobs })
  | .stored call jobs => some (q.announce, { p with phase := .delivering call jobs })
  | .resting due =>
    let rested := decide (due ≤ now)
    if cancelled && (token || !rested) then some (q, { p with phase := .ended .stopped })
    else if rested then some (q, { p with phase := .ended .polling })
    else none
  | .ended _ => none

/-- The tick at which a waiting poller goes on by itself. -/
def wake? (p : Poller) : Option Time :=
  match p.phase with
  | .waiting wait => wait.wake?
  | .resting due  => some due
  | _             => none

/-- The next turn of a loop, unless the last one was stopped. -/
def again (p : Poller) : Option Poller :=
  match p.phase with
  | .ended .stopped => none
  | .ended _        => some { p with phase := .checking }
  | _               => none

/-- Whether a loop is over. -/
def isStopped (p : Poller) : Bool :=
  match p.phase with
  | .ended .stopped => true
  | _               => false

end Poller

end JobWorker
