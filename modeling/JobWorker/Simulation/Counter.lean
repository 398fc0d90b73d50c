import JobWorker.Queue.Crowd
import JobWorker.Queue.Watch
import JobWorker.Simulation.Machine

/-!
# `JobWorker.Simulation.Counter` — a queue with consumers who are watched

Jobs are passed over the counter by key. Consumers have names and are moved one poll at a time; the wait for
room lets time pass, while events that were arranged beforehand happen.

## Contents
- **Events.** `CounterEvent`, `Arranged`.
- **The type.** `Counter`.
- **Operations.** `change`, `next`, `poll`, `isWoken`, `forget`, `wait`.
-/

namespace JobWorker

/-- Something that is arranged for a later tick. -/
structure Arranged (ε : Type) where
  due : Time
  event : ε

/-- Arranges events `after` some ticks from now, behind those already arranged. -/
def Arranged.add {ε : Type} (now : Time) (events : List (Time × ε)) (pending : List (Arranged ε)) :
    List (Arranged ε) :=
  pending ++ events.map fun entry => { due := now + entry.1, event := entry.2 }

/-- The first arranged event whose tick has come, and the others. -/
def Arranged.takeDue? {ε : Type} (now : Time) : List (Arranged ε) → Option (ε × List (Arranged ε))
  | [] => none
  | a :: rest =>
    if a.due ≤ now then some (a.event, rest)
    else (takeDue? now rest).map fun (event, rest) => (event, a :: rest)

/-- The first tick for which something is arranged. -/
def Arranged.wake? {ε : Type} (pending : List (Arranged ε)) : Option Time :=
  (pending.map (·.due)).min?

/-- What can be arranged to happen at the counter. -/
inductive CounterEvent where
  | handled
  | enqueue (key : Int)
  | cancel

/-- A crowd before a queue of keys, the names of its consumers with their numbers, the token that all share, the call that
waits for room there, arranged events and the clock. -/
structure Counter where
  crowd : Crowd Int
  cancelled : Bool := false
  names : List (String × Nat) := []
  call : Option RoomCall := none
  pending : List (Arranged CounterEvent) := []
  now : Time := 0

namespace Counter

/-- An empty counter under a limit. -/
def ofMax (maxJobs : Nat) : Counter := { crowd := .ofMax maxJobs }

/-- The queue. -/
def queue (s : Counter) : JobQueue Nat Int := s.crowd.queue

/-- Something happens in the crowd, if it is possible. -/
def act (action : CrowdAction Int) (s : Counter) : Counter :=
  { s with crowd := (s.crowd.perform action).getD s.crowd }

/-- The queue as the one who waits for room sees it. -/
def watch (s : Counter) : Watch Nat Int := { who := 0, queue := s.queue, now := s.now, call := s.call }

/-- What the one who waits for room does, if it is possible. -/
def attend? (action : WatchAction Nat Int) (s : Counter) : Option Counter :=
  (s.watch.perform action).map fun w => { s with crowd := { s.crowd with queue := w.queue }, call := w.call }

/-- Something happens to the one who waits for room, if it is possible. -/
def attend (action : WatchAction Nat Int) (s : Counter) : Counter := (s.attend? action).getD s

/-- Makes an event happen; the token is that of every consumer, and of the call that waits for room. -/
def happen (event : CounterEvent) (s : Counter) : Counter :=
  match event with
  | .handled     => s.act .finish
  | .enqueue key => s.act (.push key)
  | .cancel      =>
    (List.range s.crowd.members.length).foldl (fun s id => s.act (.cancel id))
      ({ s with cancelled := true }.attend .cancel)

/-- The wait for room, and the arranged events. -/
inductive Actor where
  | waiter
  | arranged
deriving DecidableEq

/-- The next step of an actor. -/
def step (who : Actor) (s : Counter) : Option Counter :=
  match who with
  | .waiter   => s.attend? (.next true true)
  | .arranged =>
    (Arranged.takeDue? s.now s.pending).map fun (event, pending) =>
      ({ s with pending }).happen event

/-- The counter in time. -/
def machine : Machine Counter Actor where
  actors _ := [.waiter, .arranged]
  step := step
  wake? who s := match who with
    | .waiter   => s.call.bind (·.wait.wake?)
    | .arranged => Arranged.wake? s.pending
  now s := s.now
  setNow t s := { s with now := t }

/-- Makes an event happen now, and everything that follows at once. -/
def change (event : CounterEvent) (s : Counter) : Counter := machine.settle (s.happen event)

/-- The number of the consumer with a name. -/
def number? (name : String) (s : Counter) : Option Nat := List.lookup name s.names

/-- The consumer with a name. -/
def consumer? (name : String) (s : Counter) : Option (Consumer Int) :=
  ((s.number? name).bind s.crowd.member?).map (·.consumer)

/-- A consumer leaves. -/
def forget (name : String) (s : Counter) : Counter :=
  match s.number? name with
  | none    => s
  | some id => { s.act (.leave id) with names := s.names.filter fun entry => !(entry.1 == name) }

/-- A consumer comes, and does nothing yet. -/
def next (name : String) (s : Counter) : Counter :=
  let s := s.forget name
  { s.act (.join s.cancelled) with names := s.names ++ [(name, s.crowd.members.length)] }

/-- Moves a consumer until it has to wait or has its result. -/
def poll (name : String) (s : Counter) : Counter :=
  match s.number? name with
  | none    => s
  | some id => s.act (.poll id true)

/-- Whether something happened that a waiting consumer has not noticed. -/
def isWoken (name : String) (s : Counter) : Bool :=
  (s.number? name).any fun id =>
    (s.crowd.member? id).any fun m => m.consumer.isWoken id m.cancelled s.queue

/-- How a wait for room ended: whether the token ended it, and after how many ticks. -/
structure WaitReport where
  cancelled : Bool
  elapsed : Time

/-- Waits for room, while the arranged events happen. -/
def awaitRoom (interval : Duration) (events : List (Time × CounterEvent)) (s : Counter) :
    Counter × WaitReport :=
  let begun := s.now
  let s := machine.runWhile (·.watch.isOpen) Machine.patience
    ({ s with pending := Arranged.add s.now events s.pending }.attend (.begin interval s.cancelled))
  let report : WaitReport :=
    { cancelled := match s.call with
        | some ⟨_, _, _, .finished cancelled⟩ => cancelled
        | _                                   => false
      elapsed := s.now - begun }
  (machine.settle (s.attend .leave), report)

end Counter

end JobWorker
