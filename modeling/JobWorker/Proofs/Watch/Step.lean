import JobWorker.Proofs.Step.Capacity
import JobWorker.Queue.Watch

/-!
# `JobWorker.Proofs.Watch.Step` — what an action does in a watch

What becomes of the calls is read off a run: when each came back, and what it said. A call may have come back early, that
is before the timer of its interval was due; `Watch.Step` lists what an action can do, one line each.

## Contents
- **Returns.** `RoomReturn`, `RoomReturn.isEarly`, `RoomReturn.isWoken`, `RoomReturn.ranOut`.
- **Runs read off.** `Watch.events`, `Watch.returns`, `Watch.releases`.
- **Steps.** `Watch.perform_next`, `Watch.Step`, `Watch.perform_cases`.
- **Runs.** `Watch.run_preserves`, `Watch.run_append`, `Watch.returns_append`.
-/

namespace JobWorker

/-! ## Returns -/

/-- How a call came back: what interval it was given and when it began, when it came back, whether its token had fired by
then, and whether it said so. -/
structure RoomReturn where
  interval : Duration
  begun : Time
  time : Time
  fired : Bool
  cancelled : Bool
deriving DecidableEq, Repr

namespace RoomReturn

/-- The tick at which the interval of the call was over. -/
def due (back : RoomReturn) : Time := Time.after back.begun back.interval

/-- Whether a call came back before its interval was over, under a token that had not fired. -/
def isEarly (back : RoomReturn) : Bool := decide (back.time < back.due) && !back.fired

/-- Whether a call came back before its interval was over, and did not say that its token had fired. -/
def isWoken (back : RoomReturn) : Bool := decide (back.time < back.due) && !back.cancelled

/-- Whether the interval of a call was over when it came back, and it did not say that its token had fired. -/
def ranOut (back : RoomReturn) : Bool := decide (back.due ≤ back.time) && !back.cancelled

/-- Within the range of the clock a call came back early if and only if less than its interval had elapsed. -/
theorem isEarly_iff {back : RoomReturn} (hsecs : back.interval.secs ≤ maxSigned64) (hbegun : back.begun ≤ back.time) :
    back.isEarly = true ↔ back.fired = false ∧ (back.time - back.begun) * nanosPerMilli < back.interval.nanos := by
  have hdue := Time.after_le_iff hsecs hbegun
  rw [isEarly, due, Bool.and_eq_true, decide_eq_true_eq, Bool.not_eq_true', ← Nat.not_le, hdue, Nat.not_le, and_comm]

/-- A call that did not say that its token had fired was woken, or its interval was over. -/
theorem countP_not_cancelled (log : List RoomReturn) :
    log.countP (!·.cancelled) = log.countP isWoken + log.countP ranOut := by
  induction log with
  | nil => rfl
  | cons back log ih =>
      have hhead : (if (!back.cancelled) = true then 1 else 0) =
          (if back.isWoken = true then 1 else 0) + if back.ranOut = true then 1 else 0 := by
        rcases Nat.lt_or_ge back.time back.due with hbefore | hdue
        · simp [isWoken, ranOut, hbefore, Nat.not_le.mpr hbefore]
        · simp [isWoken, ranOut, hdue, Nat.not_lt.mpr hdue]
      rw [List.countP_cons, List.countP_cons, List.countP_cons, ih, hhead]
      omega

end RoomReturn

/-- A call as it comes back. -/
def RoomCall.comeBack (call : RoomCall) (time : Time) (cancelled : Bool) : RoomReturn :=
  { interval := call.interval, begun := call.begun, time, fired := call.cancelled, cancelled }

/-! ## Runs read off -/

/-- Whether an action raises the signal of a handling that ended. -/
def WatchAction.isRelease {ι α : Type} : WatchAction ι α → Bool
  | .release => true
  | _        => false

namespace Watch

variable {ι α : Type} [DecidableEq ι]

/-- The call that came back by one action that leads from `before` to `after`, if one did. -/
def events (action : WatchAction ι α) (before after : Watch ι α) : List RoomReturn :=
  match action, before.call, after.call with
  | .next _ _, some call, some after => after.wait.result?.toList.map (call.comeBack before.now)
  | _, _, _                          => []

/-- The calls that came back along a run, in order. -/
def returns : List (WatchAction ι α) → Watch ι α → List RoomReturn
  | [], _                => []
  | action :: actions, s =>
    match s.perform action with
    | some s' => events action s s' ++ returns actions s'
    | none    => []

/-- How many handlings raised the signal. -/
def releases (actions : List (WatchAction ι α)) : Nat := actions.countP (·.isRelease)

omit [DecidableEq ι] in
theorem releases_concat {past : List (WatchAction ι α)} {action : WatchAction ι α} :
    releases (past ++ [action]) = releases past + action.isRelease.toNat := by
  rw [releases, List.countP_append, List.countP_singleton]
  cases action.isRelease <;> rfl

omit [DecidableEq ι] in
theorem releases_append {past rest : List (WatchAction ι α)} : releases (past ++ rest) = releases past + releases rest :=
  List.countP_append

/-! ## Steps -/

/-- What an action makes of a watch, with the call that comes back by it. -/
inductive Step (s : Watch ι α) : WatchAction ι α → List RoomReturn → Watch ι α → Prop where
  | begin {interval cancelled} : s.isOpen = false →
      Step s (.begin interval cancelled) [] { s with call := some (.begin s.now interval cancelled) }
  | park {token timer call due} : s.call = some call → call.wait = .entering due →
      (s.queue.handled.wait s.who).2 = false →
      Step s (.next token timer) [] { s with
        queue := { s.queue with handled := (s.queue.handled.wait s.who).1 }
        call := some { call with wait := .parked due } }
  | comeBack {token timer call queue cancelled} : s.call = some call →
      CapacityWait.Step s.who s.now call.cancelled s.queue call.wait queue (.finished cancelled) →
      Step s (.next token timer) [call.comeBack s.now cancelled] { s with
        queue
        call := some { call with wait := .finished cancelled } }
  | leave {call} : s.call = some call →
      Step s .leave [] { s with queue := call.wait.forget s.who s.queue, call := none }
  | cancel {call} : s.call = some call → Step s .cancel [] { s with call := some { call with cancelled := true } }
  | discount : Step s .discount [] { s with queue := s.queue.discount }
  | release : Step s .release [] { s with queue := s.queue.release }
  | alter {queue} : Step s (.alter queue) [] { s with queue := { queue with handled := s.queue.handled } }
  | pass {ticks} : Step s (.pass ticks) [] { s with now := s.now + ticks }

variable {s s' : Watch ι α} {action : WatchAction ι α} {actions : List (WatchAction ι α)}

/-- A step of the wait is a step of the call. -/
theorem perform_next {call : RoomCall} {queue : JobQueue ι α} {wait : CapacityWait} {token timer : Bool}
    (hcall : s.call = some call)
    (h : call.wait.step s.who s.now call.cancelled token timer s.queue = some (queue, wait)) :
    s.perform (.next token timer) = some { s with queue, call := some { call with wait } } := by
  simp only [perform, next, hcall, h, Option.bind_eq_bind, Option.bind_some]
  rfl

/-- **Every action makes one of these steps.** -/
theorem perform_cases (h : s.perform action = some s') : s.Step action (events action s s') s' := by
  cases action with
  | begin interval cancelled =>
      simp only [perform] at h
      split at h
      · cases h
      · rename_i hclosed
        cases h
        exact .begin (Bool.not_eq_true _ ▸ hclosed)
  | next token timer =>
      obtain ⟨call, hcall, h⟩ := Option.bind_eq_some_iff.mp h
      obtain ⟨⟨queue, wait⟩, hstep, h⟩ := Option.bind_eq_some_iff.mp h
      cases h
      have step := CapacityWait.step_cases hstep
      simp only [events, hcall]
      cases wait with
      | finished cancelled => exact .comeBack hcall step
      | entering due =>
          generalize call.wait = before at step
          cases step
      | parked due =>
          generalize hwait : call.wait = before at step
          cases step with
          | park hwoken => exact .park hcall hwait hwoken
  | leave =>
      obtain ⟨call, hcall, rfl⟩ := Option.map_eq_some_iff.mp h
      exact .leave hcall
  | cancel =>
      obtain ⟨call, hcall, rfl⟩ := Option.map_eq_some_iff.mp h
      exact .cancel hcall
  | discount => cases h; exact .discount
  | release => cases h; exact .release
  | alter queue => cases h; exact .alter
  | pass ticks => cases h; exact .pass

/-! ## Runs -/

/-- What each step keeps, with the actions and the returns so far as part of the state, a run keeps. -/
theorem run_preserves {P : List (WatchAction ι α) → List RoomReturn → Watch ι α → Prop}
    (step : ∀ {past log s action events s'}, P past log s → Step s action events s' →
      P (past ++ [action]) (log ++ events) s')
    (past : List (WatchAction ι α)) (log : List RoomReturn) (hP : P past log s) (h : run actions s = some s') :
    P (past ++ actions) (log ++ returns actions s) s' := by
  induction actions generalizing past log s with
  | nil =>
      cases h
      rw [returns, List.append_nil, List.append_nil]
      exact hP
  | cons action actions ih =>
      obtain ⟨v, hv, h⟩ := Option.bind_eq_some_iff.mp h
      have hrest := ih _ _ (step hP (perform_cases hv)) h
      rw [List.append_assoc, List.append_assoc] at hrest
      rw [returns, hv]
      exact hrest

theorem run_append {rest : List (WatchAction ι α)} (h : run actions s = some s') :
    run (actions ++ rest) s = run rest s' := by
  induction actions generalizing s with
  | nil => cases h; rfl
  | cons action actions ih =>
      obtain ⟨v, hv, h⟩ := Option.bind_eq_some_iff.mp h
      rw [List.cons_append, run, hv]
      exact ih h

theorem returns_append {rest : List (WatchAction ι α)} (h : run actions s = some s') :
    returns (actions ++ rest) s = returns actions s ++ returns rest s' := by
  induction actions generalizing s with
  | nil => cases h; rfl
  | cons action actions ih =>
      obtain ⟨v, hv, h⟩ := Option.bind_eq_some_iff.mp h
      simp only [List.cons_append, returns, hv, ih h, List.append_assoc]

end Watch

end JobWorker
