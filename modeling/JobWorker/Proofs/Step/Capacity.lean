import JobWorker.Queue.Capacity

/-!
# `JobWorker.Proofs.Step.Capacity` — what a step of a wait for room does

A wait for room joins the line of the signal, and leaves it in one of three ways: told by the token, told by the timer, or
woken. `CapacityWait.Step` lists what a step can do, one line each, with what it does to the signal.

## Contents
- **Views.** `CapacityWait.due?`, `CapacityWait.result?`.
- **Steps.** `CapacityWait.Step`, `CapacityWait.step_cases`.
- **Who takes one.** `CapacityWait.Step.exists_due`, `CapacityWait.isOver_of_due`.
-/

namespace JobWorker

namespace CapacityWait

variable {ι α : Type} [DecidableEq ι]

/-- The tick at which the interval ends, if the wait is not over. -/
def due? : CapacityWait → Option Time
  | .entering due | .parked due => some due
  | .finished _                 => none

/-- Whether the token ended the wait, if it is over. -/
def result? : CapacityWait → Option Bool
  | .finished cancelled => some cancelled
  | _                   => none

section Steps

variable (id : ι) (now : Time) (cancelled : Bool) (q : JobQueue ι α)

/-- What a step makes of a wait and of the queue. -/
inductive Step : CapacityWait → JobQueue ι α → CapacityWait → Prop where
  | turnBack {due} : cancelled = true → Step (.entering due) q (.finished true)
  | comeLate {due} : due ≤ now → Step (.entering due) q (.finished false)
  | passBy {due} : (q.handled.wait id).2 = true →
      Step (.entering due) { q with handled := (q.handled.wait id).1 } (.finished false)
  | park {due} : (q.handled.wait id).2 = false →
      Step (.entering due) { q with handled := (q.handled.wait id).1 } (.parked due)
  | giveUp {due} : cancelled = true → Step (.parked due) { q with handled := q.handled.leave id } (.finished true)
  | timeOut {due} : due ≤ now → Step (.parked due) { q with handled := q.handled.leave id } (.finished false)
  | wake {due handled} : q.handled.take? id = some handled → Step (.parked due) { q with handled } (.finished false)

end Steps

variable {id : ι} {now : Time} {cancelled token timer : Bool} {q q' : JobQueue ι α} {wait wait' : CapacityWait}

/-- **Every step is one of these.** -/
theorem step_cases (h : wait.step id now cancelled token timer q = some (q', wait')) :
    Step id now cancelled q wait q' wait' := by
  cases wait with
  | finished stopped => cases h
  | entering due =>
      simp only [step] at h
      repeat' split at h
      · rename_i hcancelled
        cases h
        exact .turnBack (Bool.and_eq_true_iff.mp hcancelled).1
      · rename_i hdue
        cases h
        exact .comeLate (of_decide_eq_true (Bool.and_eq_true_iff.mp hdue).1)
      · rename_i hwoken
        cases h
        exact .passBy hwoken
      · rename_i hwoken
        cases h
        exact .park (Bool.not_eq_true _ ▸ hwoken)
  | parked due =>
      simp only [step] at h
      repeat' split at h
      · rename_i hcancelled
        cases h
        exact .giveUp (Bool.and_eq_true_iff.mp hcancelled).1
      · rename_i hdue
        cases h
        exact .timeOut (of_decide_eq_true (Bool.and_eq_true_iff.mp hdue).1)
      · obtain ⟨handled, htake, heq⟩ := Option.map_eq_some_iff.mp h
        cases heq
        exact .wake htake

/-- Only a wait that is not over takes a step. -/
theorem Step.exists_due (step : Step id now cancelled q wait q' wait') : ∃ due, wait.due? = some due := by
  cases step <;> exact ⟨_, rfl⟩

theorem isOver_of_due {due : Time} (h : wait.due? = some due) : wait.isOver = false := by
  cases wait with
  | entering due | parked due => rfl
  | finished stopped => cases h

end CapacityWait

end JobWorker
