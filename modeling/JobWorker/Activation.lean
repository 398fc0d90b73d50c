import JobWorker.Clock
import JobWorker.Error
import JobWorker.Gateway

/-!
# `JobWorker.Activation` — asking for jobs

An activation call is opened, then read until its stream ends. Each response is handed on at once with the
jobs that convert. A deadline bounds the whole call on this side; it is longer than the time the gateway may
hold the call, so that the gateway answers first.

## Contents
- **Deadline.** `callDeadline?`, `ActivationRequest.longPoll`, `ActivationRequest.deadline`, `deadlineError`.
- **Calls.** `CallEvent`, `Activation`, `Activation.on`.
- **Timed scripts.** `CallScript`, `CallScript.run`: a call against a gateway whose events come at known ticks.
-/

namespace JobWorker

/-! ## Deadline -/

/-- The least time a call is taken to be held when its deadline is set. -/
def leastHold : Duration := .ofSecs 10

/-- What a deadline adds to the time a call may be held. -/
def deadlineSlack : Duration := .ofSecs 10

/-- The deadline of a call that may be held for `longPoll`, if there is a span that long. -/
def callDeadline? (longPoll : Duration) : Option Duration :=
  (longPoll.max leastHold).add? deadlineSlack

/-- How long a request lets the gateway hold it; a negative time is none. -/
def ActivationRequest.longPoll (r : ActivationRequest) : Duration := .ofMillis r.requestTimeout.toNat

/-- The deadline of a request whose caller gives none. -/
def ActivationRequest.deadline (r : ActivationRequest) : Duration :=
  (callDeadline? r.longPoll).getD .longest

theorem ActivationRequest.nanos_longPoll {r : ActivationRequest} (h : r.requestTimeout ≤ maxSigned64) :
    r.longPoll.nanos = r.requestTimeout.toNat * nanosPerMilli := by
  have hrange : r.requestTimeout ≤ 9223372036854775807 := h
  exact Duration.nanos_ofNanos (show r.requestTimeout.toNat * 1000000 < _ by omega)

/-- The deadline of a request can always be told: the sum does not exceed the longest span. -/
theorem callDeadline?_longPoll {r : ActivationRequest} (h : r.requestTimeout ≤ maxSigned64) :
    callDeadline? r.longPoll = some r.deadline := by
  have hrange : r.requestTimeout ≤ 9223372036854775807 := h
  have hpoll : r.longPoll.nanos = r.requestTimeout.toNat * 1000000 := r.nanos_longPoll h
  have hleast : leastHold.nanos = 10000000000 := rfl
  have hslack : deadlineSlack.nanos = 10000000000 := rfl
  have hmax : (r.longPoll.max leastHold).nanos ≤ 9223372036854775807000000 := by
    rw [Duration.nanos_max]
    exact Nat.max_le.mpr ⟨by omega, by omega⟩
  have hsum : (r.longPoll.max leastHold).nanos + deadlineSlack.nanos < 18446744073709551616000000000 := by
    omega
  rw [ActivationRequest.deadline, callDeadline?, Duration.add?, dif_pos hsum]
  rfl

/-- It is the longer of the long poll and the least hold, and the slack on top. -/
theorem ActivationRequest.nanos_deadline {r : ActivationRequest} (h : r.requestTimeout ≤ maxSigned64) :
    r.deadline.nanos = Nat.max r.longPoll.nanos leastHold.nanos + deadlineSlack.nanos := by
  rw [Duration.add?_eq_some_iff.mp (callDeadline?_longPoll h), Duration.nanos_max]

/-- The error of a call that outlasts its deadline. -/
def deadlineError (deadline : Duration) : ClientError :=
  .rpc .deadlineExceeded ("activation exceeded client deadline of " ++ deadline.text)

/-! ## Calls -/

/-- What can happen to a call. -/
inductive CallEvent where
  | opened
  | response (batch : Batch)
  | ended
  | failed (e : ClientError)
  | expired (deadline : Duration)
  | cancelled

/-- Where a call stands: being opened, being read with the jobs handed on so far, or over. -/
inductive Activation where
  | opening
  | reading (activated : Nat)
  | finished (result : Except ClientError Nat)
deriving Repr

namespace Activation

/-- What an event makes of a call, and the jobs that are handed on, if it was a response. -/
def on (event : CallEvent) : Activation → Activation × Option (List Job)
  | .opening =>
    match event with
    | .opened           => (.reading 0, none)
    | .failed e         => (.finished (.error e), none)
    | .expired deadline => (.finished (.error (deadlineError deadline)), none)
    | .cancelled        => (.finished (.error .cancelled), none)
    | _                 => (.opening, none)
  | .reading n =>
    match event with
    | .response batch   =>
      let jobs := Job.ofBatch batch
      (.reading (n + jobs.length), some jobs)
    | .ended            => (.finished (.ok n), none)
    | .failed e         => (.finished (.error e), none)
    | .expired deadline => (.finished (.error (deadlineError deadline)), none)
    | .cancelled        => (.finished (.error .cancelled), none)
    | .opened           => (.reading n, none)
  | .finished result => (.finished result, none)

/-- The result of a call that is over. -/
def result? : Activation → Option (Except ClientError Nat)
  | .finished result => some result
  | _                => none

end Activation

/-! ## Timed scripts -/

/-- What a gateway does with one call: how long opening takes and whether it fails, then the events of the
stream, each so long after it was asked for; behind them the stream ends, or stays silent. -/
structure CallScript where
  openDelay : Time := 0
  openError : Option ClientError := none
  events : List (Time × CallEvent) := []
  silent : Bool := false

/-- What can be seen of a call: the jobs handed on with their ticks, its result (`none` if it breaks down),
and the tick at which it ended. -/
structure CallReport where
  batches : List (Time × List Job)
  result : Option (Except ClientError Nat)
  finishedAt : Time

namespace CallScript

/-- All that the gateway does, in order, each so long after the one before. -/
def timeline (script : CallScript) : List (Time × CallEvent) :=
  let opening := match script.openError with
    | some e => CallEvent.failed e
    | none   => .opened
  (script.openDelay, opening) :: script.events ++ if script.silent then [] else [(0, .ended)]

/-- What cuts a call short: its token or its deadline, whichever comes first. -/
def cut (token : Token) (expiry : Time) (deadline : Duration) : Time × CallEvent :=
  match token.fires? with
  | some t => if t ≤ expiry then (t, .cancelled) else (expiry, .expired deadline)
  | none   => (expiry, .expired deadline)

/-- Whether a call is cut short before something comes. Of two that come at once, a token is noticed and a
deadline is not. -/
def cutsBefore (token : Token) (expiry due : Time) : Bool :=
  decide (expiry < due) || token.fires?.any fun t => decide (t ≤ expiry) && decide (t ≤ due)

/-- A call from tick `now` on, to which these events are to come. -/
def follow (token : Token) (expiry : Time) (deadline : Duration) :
    List (Time × CallEvent) → Activation → Time → CallReport
  | [], call, _ =>
    let (t, event) := cut token expiry deadline
    { batches := [], result := (call.on event).1.result?, finishedAt := t }
  | (delay, event) :: events, call, now =>
    let due := now + delay
    if cutsBefore token expiry due then
      let (t, event) := cut token expiry deadline
      { batches := [], result := (call.on event).1.result?, finishedAt := t }
    else
      let (call, jobs) := call.on event
      let handed := (jobs.map fun jobs => (due, jobs)).toList
      match call.result? with
      | some result => { batches := handed, result := some result, finishedAt := due }
      | none =>
        let rest := follow token expiry deadline events call due
        { rest with batches := handed ++ rest.batches }

/-- A whole call that begins at tick zero. Where its deadline is a span that no clock can count, it breaks down
before it is opened. -/
def run (script : CallScript) (token : Token) (deadline : Duration) : CallReport :=
  match Time.deadline? 0 deadline with
  | some expiry => follow token expiry deadline script.timeline .opening 0
  | none        => { batches := [], result := none, finishedAt := 0 }

end CallScript

end JobWorker
