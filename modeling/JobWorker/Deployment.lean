import JobWorker.Gateway.Link
import JobWorker.Worker

/-!
# `JobWorker.Deployment` — a worker at a gateway in memory

A deployment is a worker, the gateway it asks for jobs, and the link between them. What the gateway tells the
worker is not free here: the events of a call come over the link, and a report is answered by the gateway
that takes it. Everything else stays a choice: the order of steps, how long anything takes, what handlers do,
and what is scripted at the gateway and when.

## Contents
- **The type.** `Deployment`, `Deployment.start`.
- **Moves.** `Move`, `Deployment.perform`, `Deployment.run`.
-/

namespace JobWorker

/-- A worker, its gateway, and the link of its poller to it. -/
structure Deployment where
  worker : Worker
  gateway : Gateway := {}
  link : Link := .idle

/-- What can happen in a deployment: an action of the worker alone, a step of the open call, a report on a
job with its answer, a command of a handler, and what is scripted at the gateway. -/
inductive Move where
  | worker (action : Action)
  | call (token timer : Bool)
  | report (id : Nat)
  | command (request : CommandRequest)
  | push (batch : Batch)
  | failActivations (status : Status) (times : Nat)
  | failCommands (status : Status) (times : Nat)

namespace Deployment

/-- A worker just opened at a gateway. -/
def start (config : WorkerConfig) (kind : HandlerKind) (now : Time) (gateway : Gateway) : Deployment :=
  { worker := .start config kind now, gateway }

/-- An action of the worker, unless it is the gateway that decides about it. -/
def act (action : Action) (d : Deployment) : Option Deployment :=
  match action with
  | .gateway _ => none
  | .answer _  => none
  | _          => (d.worker.perform action).map fun worker => { d with worker }

/-- A step of the open call; what it tells the poller is heard at once. -/
def call (token timer : Bool) (d : Deployment) : Option Deployment :=
  match d.worker.poller.phase with
  | .calling _ => do
    let (gateway, link, event) ←
      d.link.step d.worker.now d.worker.cancelled token timer d.worker.poller.request d.gateway
    let worker ← match event with
      | none       => some d.worker
      | some event => d.worker.perform (.gateway event)
    return { worker, gateway, link }
  | _ => none

/-- A handling's report reaches the gateway, which answers it. -/
def report (id : Nat) (d : Deployment) : Option Deployment := do
  let h ← d.worker.handling? id
  match h.phase with
  | .reporting request =>
    let worker ← d.worker.perform (.answer id)
    return { d with worker, gateway := (d.gateway.attempt request).1 }
  | _ => none

/-- Carries a move out, where it is possible. -/
def perform (move : Move) (d : Deployment) : Option Deployment :=
  match move with
  | .worker action                => d.act action
  | .call token timer             => d.call token timer
  | .report id                    => d.report id
  | .command request              => some { d with gateway := (d.gateway.attempt request).1 }
  | .push batch                   => some { d with gateway := d.gateway.push batch }
  | .failActivations status times => some { d with gateway := d.gateway.failActivations status times }
  | .failCommands status times    => some { d with gateway := d.gateway.failCommands status times }

/-- Carries a list of moves out, where all of them are possible in turn. -/
def run : List Move → Deployment → Option Deployment
  | [], d            => some d
  | move :: moves, d => (d.perform move).bind (run moves)

end Deployment

end JobWorker
