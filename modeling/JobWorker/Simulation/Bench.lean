import JobWorker.Gateway.Outbox
import JobWorker.Simulation.Machine
import JobWorker.Simulation.Script

/-!
# `JobWorker.Simulation.Bench` — one client at one gateway

On a bench one thing is done after the other: an order is sent, or a handler is run on a job, and the clock
goes on until that is over.

## Contents
- **The type.** `Bench`.
- **Orders.** `OrderReport`, `Bench.send`.
- **Handlers.** `Bench.invoke`.
-/

namespace JobWorker

/-- A gateway, the waits between attempts, the clock, and what was noted and looked up. -/
structure Bench where
  gateway : Gateway := {}
  retry : RetryDelay
  now : Time := 0
  notes : List LogEntry := []
  lookups : List Nat := []

namespace Bench

/-! ## Orders -/

/-- How an order ended, `none` if it was not to be sent, and whether a command was made for it. -/
structure OrderReport where
  result : Option (Except ClientError Unit)
  used : Bool

/-- An outbox with one command, and the numbers that were looked up. -/
def sendMachine : Machine (Outbox × List Nat) Unit where
  actors _ := [()]
  step _ s := do
    let before ← s.1.sending? 0
    let outbox ← s.1.perform (.step 0 false 0)
    let after ← outbox.sending? 0
    return (outbox, s.2 ++ (before.lookup? after).toList)
  wake? _ s := (s.1.sending? 0).bind (·.wake?)
  now s := s.1.now
  setNow t s := ({ s.1 with now := t }, s.2)

/-- Makes and sends the command of an order; a command counts as made whether or not it is sent. -/
def send (order : Order) (bench : Bench) : Bench × OrderReport :=
  match order.plan? bench.retry bench.now with
  | none      => (bench, { result := none, used := true })
  | some plan =>
    let outbox : Outbox :=
      { gateway := bench.gateway, now := bench.now, sendings := [(order.command 0).send plan] }
    let (outbox, lookups) :=
      sendMachine.runWhile (fun s => (s.1.result? 0).isNone) Machine.patience (outbox, bench.lookups)
    ({ bench with gateway := outbox.gateway, now := outbox.now, lookups },
      { result := outbox.result? 0, used := true })

/-! ## Handlers -/

/-- A bench on which a handler works, and whether it has made a command. -/
structure Work where
  bench : Bench
  activity : Activity
  used : Bool := false

/-- A handler at work. -/
def workMachine (kind : HandlerKind) : Machine Work Unit where
  actors _ := [()]
  step _ s :=
    (s.activity.step kind s.bench.retry s.bench.now s.bench.gateway).map fun done =>
      { bench := { s.bench with
          gateway := done.gateway
          notes := s.bench.notes ++ done.notes
          lookups := s.bench.lookups ++ done.lookups }
        activity := done.activity
        used := s.used || done.used }
  wake? _ s := s.activity.wake?
  now s := s.bench.now
  setNow t s := { s with bench := { s.bench with now := t } }

/-- Runs a handler on a job: the bench after it, how the handler came back, and whether it made a
command. -/
def invoke (kind : HandlerKind) (script : Script) (job : Job) (bench : Bench) :
    Bench × Option HandlerResult × Bool :=
  let done := (workMachine kind).runWhile (fun s => s.activity.result?.isNone) Machine.patience
    { bench, activity := { job, script } }
  (done.bench, done.activity.result?, done.used)

end Bench

end JobWorker
