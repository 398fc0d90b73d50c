import JobWorker.Clock
import JobWorker.Gateway

/-!
# `JobWorker.Gateway.Call` — one activation call at a gateway

A call is recorded, notes how many batches were announced so far, and looks for one. Where there is none it
is held until the long poll is over or a further batch is announced; then it looks once more and ends with
whatever it finds. Noting the count before looking makes sure that no announcement falls between the look
and the hold.

## Contents
- **Phases.** `CallPhase`, `Call`, `Call.start`.
- **Steps.** `Call.step`, `Call.wake?`, `Call.answer?`.
-/

namespace JobWorker

/-- Where a call stands; an answer is an error or the responses of the stream. -/
inductive CallPhase where
  | arriving
  | accepted
  | looking (seen : Nat)
  | held (seen : Nat) (due : Time)
  | answered (answer : Except ClientError (List Batch))
deriving Repr

/-- An activation call. -/
structure Call where
  request : ActivationRequest
  phase : CallPhase := .arriving
deriving Repr

namespace Call

/-- The jobs a call asks for; a negative number asks for none. -/
def wanted (c : Call) : Nat := c.request.maxJobs.toNat

/-- How long a call may be held. -/
def longPoll (c : Call) : Duration := .ofMillis c.request.requestTimeout.toNat

/-- The answer that a look for a batch gives, and the gateway after it. -/
def serve (c : Call) (g : Gateway) : Gateway × Call :=
  match g.nextBatch? c.wanted c.request.worker with
  | some (batch, g) => (g, { c with phase := .answered (.ok [batch]) })
  | none            => (g, { c with phase := .answered (.ok []) })

/-- The next step of a call, if it does not have to wait. Where the long poll is over and a batch was
announced as well, `timer` prefers the former. -/
def step (now : Time) (timer : Bool) (g : Gateway) (c : Call) : Option (Gateway × Call) :=
  match c.phase with
  | .arriving =>
    match g.accept c.request with
    | (g, .ok ())   => some (g, { c with phase := .accepted })
    | (g, .error e) => some (g, { c with phase := .answered (.error e) })
  | .accepted => some (g, { c with phase := .looking g.pushes })
  | .looking seen =>
    match g.nextBatch? c.wanted c.request.worker with
    | some (batch, g) => some (g, { c with phase := .answered (.ok [batch]) })
    | none => some (g, { c with phase := .held seen (Time.after now c.longPoll) })
  | .held seen due =>
    let announced := decide (seen < g.pushes)
    if decide (due ≤ now) && (timer || !announced) then
      some (g, { c with phase := .answered (.ok []) })
    else if announced then some (c.serve g)
    else none
  | .answered _ => none

/-- The tick at which a held call gives up. -/
def wake? (c : Call) : Option Time :=
  match c.phase with
  | .held _ due => some due
  | _           => none

/-- The answer of a call that is over. -/
def answer? (c : Call) : Option (Except ClientError (List Batch)) :=
  match c.phase with
  | .answered answer => some answer
  | _                => none

end Call

end JobWorker
