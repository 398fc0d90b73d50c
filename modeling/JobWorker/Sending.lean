import JobWorker.Gateway
import JobWorker.Retry

/-!
# `JobWorker.Sending` — a command on its way

A request is sent once, or again and again as the retry loop says. Other commands may reach the gateway
between two attempts, so that every attempt is a step of its own.

## Contents
- **Ways.** `SendWay`, `Sending`, `Sending.once`, `Sending.withRetry`.
- **Plans.** `SendPlan`, `Command.send`.
- **Steps.** `Sending.step`, `Sending.cancel`, `Sending.wake?`, `Sending.result?`, `Sending.lookup?`.
-/

namespace JobWorker

/-- How a command is sent: once, with its outcome once it is there, or by a loop. -/
inductive SendWay where
  | once (outcome : Option (Except ClientError Unit))
  | again (loop : RetryLoop Unit)

/-- A command on its way: its request, the token of its loop, and where it stands. -/
structure Sending where
  request : CommandRequest
  token : Token := .never
  way : SendWay := .once none

namespace Sending

/-- A request that is sent once, whatever its token says. -/
def once (request : CommandRequest) : Sending := { request := request }

/-- A request that is sent until it succeeds or fails for good. -/
def withRetry (request : CommandRequest) (delay : RetryDelay) (token : Token) : Sending :=
  { request, token, way := .again { delay := delay } }

end Sending

/-- How a command is to be sent: once, or until it succeeds or fails for good. -/
inductive SendPlan where
  | once
  | withRetry (delay : RetryDelay) (token : Token)

/-- A command that begins to be sent: its request on its way, or why it makes none. -/
def Command.send (plan : SendPlan) (command : Command) : Except ClientError Sending :=
  command.request.map fun request => match plan with
    | .once                  => .once request
    | .withRetry delay token => .withRetry request delay token

namespace Sending

/-- What a look at the token finds. The first look comes before anything else happens. -/
def finds (now : Time) (l : RetryLoop Unit) (token : Token) : Bool :=
  if l.state.attempt = 0 then token.wasFired else token.isFired now

/-- The next step of a loop that sends a request, if it does not have to wait. A wait begins as the call fails, under a
draw of the random source. -/
def stepLoop (now : Time) (timer : Bool) (draw : Rat) (g : Gateway) (s : Sending) (l : RetryLoop Unit) :
    Option (Gateway × RetryLoop Unit) :=
  match l.phase with
  | .looking  => (l.look (finds now l s.token)).map fun l => (g, l)
  | .calling  =>
    let (g, outcome) := g.attempt s.request
    (l.answer outcome).map fun l => (g, (l.consult now draw).getD l)
  | .failed   => (l.consult now draw).map fun l => (g, l)
  | .waiting _ => (l.wake (s.token.isFired now) timer now).map fun l => (g, l)
  | .finished _ => none

/-- The next step of a command, if it does not have to wait. -/
def step (now : Time) (timer : Bool) (draw : Rat) (g : Gateway) (s : Sending) : Option (Gateway × Sending) :=
  match s.way with
  | .once none =>
    let (g, outcome) := g.attempt s.request
    some (g, { s with way := .once (some outcome) })
  | .once (some _) => none
  | .again l => (s.stepLoop now timer draw g l).map fun (g, l) => (g, { s with way := .again l })

/-- The token of a command fires. -/
def cancel (s : Sending) : Sending := { s with token := .fired }

/-- The tick at which a waiting command goes on: the end of its wait, or its token before that. -/
def wake? (s : Sending) : Option Time :=
  match s.way with
  | .again { phase := .waiting due, .. } => some (match s.token.wake? with
    | some t => min t due
    | none   => due)
  | _ => none

/-- How the command ended, if it did. -/
def result? (s : Sending) : Option (Except ClientError Unit) :=
  match s.way with
  | .once outcome                           => outcome
  | .again { phase := .finished result, .. } => some result
  | .again _                                => none

/-- The number that was looked up for a wait that a step began. -/
def lookup? (before after : Sending) : Option Nat :=
  match before.way, after.way with
  | .again { phase := .calling, .. }, .again { phase := .waiting _, delay, state } => delay.lookup? state
  | _, _ => none

end Sending

end JobWorker
