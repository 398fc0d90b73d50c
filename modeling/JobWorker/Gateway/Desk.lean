import JobWorker.Gateway.Call

/-!
# `JobWorker.Gateway.Desk` — callers side by side at one gateway

Any number of calls may be open at a gateway at the same time, and what is scripted is scripted while they are. Each
call goes on by steps of its own, in any order; a caller may give up a call that is held. A push takes two steps, and
others may act in between: first the batch is scripted, then the calls on hold are told.

Calls are numbered in the order in which they begin, and keep their place in the list; the place of a call that was
given up is empty.

## Contents
- **The type.** `Desk`, `Desk.call?`.
- **Actions.** `DeskAction`, `Desk.perform`, `Desk.run`.
-/

namespace JobWorker

/-- A gateway with its calls, the clock, and how many pushes have scripted a batch and are yet to announce it. -/
structure Desk where
  gateway : Gateway := {}
  now : Time := 0
  unannounced : Nat := 0
  calls : List (Option Call) := []
deriving Repr

/-- What can happen at a desk. -/
inductive DeskAction where
  | store (batch : Batch)
  | announce
  | failActivations (status : Status) (times : Nat)
  | failCommands (status : Status) (times : Nat)
  | command (request : CommandRequest)
  | arrive (request : ActivationRequest)
  | step (id : Nat) (timer : Bool)
  | giveUp (id : Nat)
  | pass (ticks : Nat)

namespace Desk

/-- The call with a number, if it has begun and was not given up. -/
def call? (id : Nat) (d : Desk) : Option Call := d.calls[id]?.join

/-- The desk with one place replaced. -/
def setCall (id : Nat) (call : Option Call) (d : Desk) : Desk := { d with calls := d.calls.set id call }

/-- The next step of a call. -/
def step (id : Nat) (timer : Bool) (d : Desk) : Option Desk := do
  let call ← d.call? id
  let (gateway, call) ← call.step d.now timer d.gateway
  return { d with gateway }.setCall id (some call)

/-- A caller gives up a call that is held. -/
def giveUp (id : Nat) (d : Desk) : Option Desk := do
  let call ← d.call? id
  match call.phase with
  | .held _ _ => some (d.setCall id none)
  | _         => none

/-- Carries an action out, where it is possible. -/
def perform (action : DeskAction) (d : Desk) : Option Desk :=
  match action with
  | .store batch => some { d with gateway := d.gateway.store batch, unannounced := d.unannounced + 1 }
  | .announce =>
    if d.unannounced = 0 then none
    else some { d with gateway := d.gateway.announce, unannounced := d.unannounced - 1 }
  | .failActivations status times => some { d with gateway := d.gateway.failActivations status times }
  | .failCommands status times    => some { d with gateway := d.gateway.failCommands status times }
  | .command request              => some { d with gateway := (d.gateway.attempt request).1 }
  | .arrive request               => some { d with calls := d.calls ++ [some { request := request }] }
  | .step id timer                => d.step id timer
  | .giveUp id                    => d.giveUp id
  | .pass ticks                   => some { d with now := d.now + ticks }

/-- Carries a list of actions out, where all of them are possible in turn. -/
def run : List DeskAction → Desk → Option Desk
  | [], d            => some d
  | action :: as, d  => (d.perform action).bind (run as)

end Desk

end JobWorker
