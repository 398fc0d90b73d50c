import JobWorker.Clock

/-!
# `JobWorker.Simulation.Machine` — running parts side by side in virtual time

A machine has actors that take turns. Those that can go on stand in line; the first takes steps until it has
to wait, then the next one does, and an actor that becomes able to go on joins the end of the line. Steps
take no time. When nobody can go on, the clock jumps to the next tick at which somebody can.

## Contents
- **The type.** `Machine`: actors, their steps, the ticks they wait for, the clock.
- **One instant.** `Machine.settle`.
- **Time.** `Machine.runUntil`, `Machine.runWhile`.
-/

namespace JobWorker

/-- Actors `ι` on a state `σ`. -/
structure Machine (σ ι : Type) where
  actors : σ → List ι
  step : ι → σ → Option σ
  wake? : ι → σ → Option Time
  now : σ → Time
  setNow : Time → σ → σ

namespace Machine

variable {σ ι : Type} [DecidableEq ι]

/-- The actors that can go on and do not stand in `line` yet. -/
def newcomers (m : Machine σ ι) (line : List ι) (s : σ) : List ι :=
  (m.actors s).filter fun i => decide (i ∉ line) && (m.step i s).isSome

/-- Runs the actors in `line`, and those that join it, until nobody can go on or `fuel` steps are taken. -/
def runLine (m : Machine σ ι) : Nat → List ι → σ → σ
  | 0, _, s => s
  | fuel + 1, line, s =>
    match line with
    | [] => s
    | i :: rest =>
      match m.step i s with
      | none   => runLine m fuel rest s
      | some s => runLine m fuel (i :: rest ++ m.newcomers (i :: rest) s) s

/-- How many steps one instant may take. -/
def patience : Nat := 1000000000000

/-- Lets everything happen that can happen at this instant. -/
def settle (m : Machine σ ι) (s : σ) : σ := m.runLine patience (m.newcomers [] s) s

/-- The next tick for which somebody waits. -/
def nextTick? (m : Machine σ ι) (s : σ) : Option Time :=
  ((m.actors s).filterMap fun i => m.wake? i s).filter (m.now s < ·) |>.min?

/-- Lets time pass up to `target`, with `fuel` bounding the instants at which something happens. -/
def runUntil (m : Machine σ ι) (target : Time) : Nat → σ → σ
  | 0, s => s
  | fuel + 1, s =>
    let s := m.settle s
    match m.nextTick? s with
    | some t =>
      if t ≤ target then runUntil m target fuel (m.setNow t s) else m.settle (m.setNow target s)
    | none => m.settle (m.setNow target s)

/-- Lets time pass for `ticks`. -/
def pass (m : Machine σ ι) (ticks : Time) (s : σ) : σ :=
  m.runUntil (m.now s + ticks) (ticks + 2) s

/-- Lets time pass while the state is busy, with `fuel` bounding the instants. -/
def runWhile (m : Machine σ ι) (busy : σ → Bool) : Nat → σ → σ
  | 0, s => s
  | fuel + 1, s =>
    let s := m.settle s
    if busy s then
      match m.nextTick? s with
      | some t => runWhile m busy fuel (m.setNow t s)
      | none   => s
    else s

end Machine

end JobWorker
