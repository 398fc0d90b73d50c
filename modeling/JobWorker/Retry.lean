import JobWorker.Backoff
import JobWorker.Clock
import JobWorker.Error

/-!
# `JobWorker.Retry` — trying again after passing conditions

An operation is tried again as long as it fails with a transient error, after a wait that is computed once
per failure. There is no limit to the attempts: the loop ends with the first other outcome, or when its
token fires before the first attempt or during a wait. A token that fires during an attempt does not take
the outcome away; one that fires as a wait ends is noticed before the next attempt.

## Contents
- **Waits.** `RetryDelay`: from the previous wait, or looked up by the number of the attempt; `RetryState.next`.
- **Loop.** `RetryLoop` with its steps `look`, `answer`, `consult` and `wake`.
- **Steps.** `RetryRun`, `RetryAction`, `RetryRun.perform`: a loop with its token and the clock.
- **Runs.** `Attempt`, `Retry.run`: the whole loop against a list of timed outcomes.
-/

namespace JobWorker

/-! ## Waits -/

/-- How the wait before each retry is found. -/
inductive RetryDelay where
  | backoff (settings : Backoff)
  | lookup (wait : Nat → Duration)

/-- The number at which the count of attempts stays. -/
def maxAttempt : Nat := maxUnsigned32

/-- What the loop remembers: the retries counted so far and the last wait. -/
structure RetryState where
  attempt : Nat := 0
  previous : Duration := .zero
deriving DecidableEq, Repr

namespace RetryDelay

/-- The wait before the retry with a number, after the previous wait, under a draw of the random source. -/
def delayFor (delay : RetryDelay) (draw : Rat) (attempt : Nat) (previous : Duration) : Duration :=
  match delay with
  | .backoff settings => settings.next Binary64.round draw previous
  | .lookup wait      => wait attempt

/-- The number that was looked up for the wait that led to a state. -/
def lookup? (delay : RetryDelay) (state : RetryState) : Option Nat :=
  match delay with
  | .lookup _  => some state.attempt
  | .backoff _ => none

/-- Debugging text of a way to find waits that are looked up. -/
def inspect : RetryDelay → String
  | .backoff _ => "Backoff"
  | .lookup _  => "Attempt"

end RetryDelay

/-- The state after one more failure; the wait that it leads to is the last one. -/
def RetryState.next (delay : RetryDelay) (draw : Rat) (state : RetryState) : RetryState :=
  let attempt := min (state.attempt + 1) maxAttempt
  { attempt, previous := delay.delayFor draw attempt state.previous }

/-- Debugging text of a retry strategy. -/
def RetryDelay.strategyText (delay : RetryDelay) : String :=
  "RetryStrategy \x7b delay: " ++ delay.inspect ++ " \x7d"

/-- Debugging text of a client with a retry strategy. -/
def RetryDelay.clientText (delay : RetryDelay) : String :=
  "Client \x7b retry: " ++ delay.strategyText ++ ", .. \x7d"

/-! ## Loop -/

/-- Whether an outcome leads to another attempt. -/
def isPassing {α : Type} : Except ClientError α → Bool
  | .ok _    => false
  | .error e => e.isTransient

/-- Where a loop stands; after a call that failed for a passing condition, the next wait is still to be found. -/
inductive RetryPhase (α : Type) where
  | looking
  | calling
  | failed
  | waiting (due : Time)
  | finished (result : Except ClientError α)

/-- A loop that tries an operation. -/
structure RetryLoop (α : Type) where
  delay : RetryDelay
  state : RetryState := {}
  phase : RetryPhase α := .looking

namespace RetryLoop

variable {α : Type}

/-- The token is looked at, before every call. -/
def look (cancelled : Bool) (l : RetryLoop α) : Option (RetryLoop α) :=
  match l.phase with
  | .looking => some { l with phase := if cancelled then .finished (.error .cancelled) else .calling }
  | _        => none

/-- The call comes back. -/
def answer (outcome : Except ClientError α) (l : RetryLoop α) : Option (RetryLoop α) :=
  match l.phase with
  | .calling => some { l with phase := if isPassing outcome then .failed else .finished outcome }
  | _        => none

/-- The wait after a failure is found, and begins. -/
def consult (now : Time) (draw : Rat) (l : RetryLoop α) : Option (RetryLoop α) :=
  match l.phase with
  | .failed =>
    let state := l.state.next l.delay draw
    some { l with state, phase := .waiting (Time.after now state.previous) }
  | _ => none

/-- The wait runs out, or the token fires. Where both are the case, `timer` takes it that the wait has run out; the
token is looked at again before the next call. -/
def wake (cancelled timer : Bool) (now : Time) (l : RetryLoop α) : Option (RetryLoop α) :=
  match l.phase with
  | .waiting due =>
    let rested := decide (due ≤ now)
    if cancelled && !(timer && rested) then some { l with phase := .finished (.error .cancelled) }
    else if rested then some { l with phase := .looking }
    else none
  | _ => none

end RetryLoop

/-! ## Steps -/

/-- A loop, the clock, and whether the token of the loop has fired. -/
structure RetryRun (α : Type) where
  loop : RetryLoop α
  now : Time
  cancelled : Bool

/-- What can happen to a loop: a step of its own, its token fires, or time passes. -/
inductive RetryAction (α : Type) where
  | look
  | answer (outcome : Except ClientError α)
  | consult (draw : Rat)
  | wake (timer : Bool)
  | cancel
  | pass (ticks : Nat)

namespace RetryRun

variable {α : Type}

/-- A loop that begins. -/
def start (delay : RetryDelay) (cancelled : Bool) (now : Time) : RetryRun α :=
  { loop := { delay := delay }, now, cancelled }

/-- Carries an action out, where it is possible. -/
def perform (action : RetryAction α) (r : RetryRun α) : Option (RetryRun α) :=
  match action with
  | .look           => (r.loop.look r.cancelled).map fun loop => { r with loop }
  | .answer outcome => (r.loop.answer outcome).map fun loop => { r with loop }
  | .consult draw   => (r.loop.consult r.now draw).map fun loop => { r with loop }
  | .wake timer     => (r.loop.wake r.cancelled timer r.now).map fun loop => { r with loop }
  | .cancel         => some { r with cancelled := true }
  | .pass ticks     => some { r with now := r.now + ticks }

/-- Carries a list of actions out, where all of them are possible in turn. -/
def run : List (RetryAction α) → RetryRun α → Option (RetryRun α)
  | [], r           => some r
  | action :: as, r => (r.perform action).bind (run as)

end RetryRun

/-! ## Runs -/

namespace Retry

/-- One call of the operation: how long it takes and how it ends. -/
structure Attempt (α : Type) where
  takes : Time := 0
  outcome : Except ClientError α

/-- What can be seen of a run: its result (`none` while it goes on), the ticks at which calls began, the
numbers looked up, and the tick at which it ended. -/
structure Report (α : Type) where
  result : Option (Except ClientError α)
  calls : List Time
  lookups : List Nat
  finishedAt : Time

/-- A run that its token ended at a tick. -/
def Report.cancelledAt {α : Type} (t : Time) : Report α :=
  { result := some (.error .cancelled), calls := [], lookups := [], finishedAt := t }

/-- Adds a call that happened before, and the number that was looked up after it. -/
def Report.preceded {α : Type} (call : Time) (lookup : Option Nat) (r : Report α) : Report α :=
  { r with calls := call :: r.calls, lookups := lookup.toList ++ r.lookups }

/-- The loop from its next call on, against the outcomes of the calls to come. The token is looked at before
every call; `timer` tells how a wait comes out that ends as the token fires. -/
def loop {α : Type} (delay : RetryDelay) (token : Token) (timer : Bool) :
    List (Attempt α) → RetryState → Time → Report α
  | [], _, now => { result := none, calls := [], lookups := [], finishedAt := now }
  | call :: calls, state, now =>
    let ended := now + call.takes
    if isPassing call.outcome then
      let state := state.next delay 0
      let due := Time.after ended state.previous
      let rest : Report α := match token.cuts? timer ended due with
        | some t => .cancelledAt t
        | none   =>
          if token.isFired due then .cancelledAt due else loop delay token timer calls state due
      rest.preceded now (delay.lookup? state)
    else { result := some call.outcome, calls := [now], lookups := [], finishedAt := ended }

/-- A run that begins at tick `now`: nothing is called under a token that has fired already. -/
def run {α : Type} (delay : RetryDelay) (token : Token) (timer : Bool) (calls : List (Attempt α))
    (now : Time) : Report α :=
  if token.wasFired then .cancelledAt now else loop delay token timer calls {} now

end Retry

end JobWorker
