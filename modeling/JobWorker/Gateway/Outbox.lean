import JobWorker.Sending

/-!
# `JobWorker.Gateway.Outbox` — commands side by side at one gateway

Any number of commands may be on their way to a gateway at the same time. Each goes on by steps of its own, in any
order, so that the attempts of one come between those of another, and all meet the same scripted failures. A token may
fire at any time.

Commands are numbered in the order in which they begin to be sent, and keep their place in the list; one that makes no
request has its error there.

## Contents
- **The type.** `Outbox`, `Outbox.sending?`, `Outbox.result?`.
- **Actions.** `OutboxAction`, `Outbox.perform`, `Outbox.run`.
-/

namespace JobWorker

/-- A gateway with the commands that were begun, and the clock. -/
structure Outbox where
  gateway : Gateway := {}
  now : Time := 0
  sendings : List (Except ClientError Sending) := []

/-- What can happen to an outbox. A step is one of the command's own; `timer` and `draw` are what it finds by chance. -/
inductive OutboxAction where
  | failCommands (status : Status) (times : Nat)
  | send (command : Command) (plan : SendPlan)
  | step (id : Nat) (timer : Bool) (draw : Rat)
  | cancel (id : Nat)
  | pass (ticks : Nat)

namespace Outbox

/-- The command with a number on its way, if it has begun and made a request. -/
def sending? (id : Nat) (o : Outbox) : Option Sending := o.sendings[id]?.bind (·.toOption)

/-- How the command with a number ended, if it did. -/
def result? (id : Nat) (o : Outbox) : Option (Except ClientError Unit) :=
  o.sendings[id]?.bind fun
    | .ok s    => s.result?
    | .error e => some (.error e)

/-- The outbox with one place replaced. -/
def setSending (id : Nat) (s : Sending) (o : Outbox) : Outbox := { o with sendings := o.sendings.set id (.ok s) }

/-- The next step of a command. -/
def step (id : Nat) (timer : Bool) (draw : Rat) (o : Outbox) : Option Outbox := do
  let s ← o.sending? id
  let (gateway, s) ← s.step o.now timer draw o.gateway
  return { o with gateway }.setSending id s

/-- The token of a command fires. -/
def cancel (id : Nat) (o : Outbox) : Option Outbox := (o.sending? id).map fun s => o.setSending id s.cancel

/-- Carries an action out, where it is possible. -/
def perform (action : OutboxAction) (o : Outbox) : Option Outbox :=
  match action with
  | .failCommands status times => some { o with gateway := o.gateway.failCommands status times }
  | .send command plan         => some { o with sendings := o.sendings ++ [command.send plan] }
  | .step id timer draw        => o.step id timer draw
  | .cancel id                 => o.cancel id
  | .pass ticks                => some { o with now := o.now + ticks }

/-- Carries a list of actions out, where all of them are possible in turn. -/
def run : List OutboxAction → Outbox → Option Outbox
  | [], o           => some o
  | action :: as, o => (o.perform action).bind (run as)

end Outbox

end JobWorker
