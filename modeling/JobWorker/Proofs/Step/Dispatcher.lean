import JobWorker.Dispatcher
import JobWorker.Poller

/-!
# `JobWorker.Proofs.Step.Dispatcher` — what a dispatcher's own step does

A round of the dispatcher leads from a free slot over a job to a handling. `Dispatcher.Step` lists the legs of the
round, one line for each: what the dispatcher has seen when it takes it, what it does to the queue, and what it does
to slots and handlings. Every law of a dispatcher's steps is proved by cases on the line.

## Contents
- **Steps.** `Dispatcher.Step`, `Dispatcher.step_cases`.
-/

namespace JobWorker

namespace Dispatcher

section Steps

variable (cancelled : Bool) (freeSlots : Nat) (q : JobQueue Party Job)

/-- What a dispatcher's own step makes of the dispatcher and of the queue, and what it does besides. -/
inductive Step : Dispatcher Job → JobQueue Party Job → Dispatcher Job → Dispatch Job → Prop where
  | stop : cancelled = true → Step .acquiring q .stopped .nothing
  | acquire : 0 < freeSlots → Step .acquiring q (.fetching .checking) .takeSlot
  | leave : cancelled = true → Step (.fetching .checking) q (.fetching (.returned none)) .nothing
  | begin : cancelled = false → Step (.fetching .checking) q (.fetching .looking) .nothing
  | take {job jobs} : q.jobs = job :: jobs →
      Step (.fetching .looking) { q with jobs } (.fetching (.returned (some job))) .nothing
  | miss : q.jobs = [] → Step (.fetching .looking) q (.fetching .entering) .nothing
  | turnBack : cancelled = true → Step (.fetching .entering) q (.fetching (.returned none)) .nothing
  | passBy : (q.available.wait .dispatcher).2 = true →
      Step (.fetching .entering) { q with available := (q.available.wait .dispatcher).1 } (.fetching .checking)
        .nothing
  | park : (q.available.wait .dispatcher).2 = false →
      Step (.fetching .entering) { q with available := (q.available.wait .dispatcher).1 } (.fetching .parked) .nothing
  | breakOff : cancelled = true →
      Step (.fetching .parked) { q with available := q.available.leave .dispatcher } (.fetching (.returned none))
        .nothing
  | wake {available} : q.available.take? .dispatcher = some available →
      Step (.fetching .parked) { q with available } (.fetching .checking) .nothing
  | giveUp : Step (.fetching (.returned none)) q .stopped .returnSlot
  | carry {job} : Step (.fetching (.returned (some job))) q (.launching job) .nothing
  | launch {job} : Step (.launching job) q .acquiring (.launch job)

variable {cancelled freeSlots q}

/-- **Every own step is one of these.** -/
theorem step_cases {token : Bool} {d d' : Dispatcher Job} {q' : JobQueue Party Job} {effect : Dispatch Job}
    (h : d.step .dispatcher cancelled token freeSlots q = some (q', d', effect)) :
    Step cancelled freeSlots q d q' d' effect := by
  cases d with
  | acquiring =>
      simp only [step] at h
      repeat' split at h
      · rename_i hcancelled
        cases h
        exact .stop (Bool.and_eq_true_iff.mp hcancelled).1
      · rename_i hfree
        cases h
        exact .acquire hfree
      · cases h
  | fetching consumer =>
      cases consumer with
      | checking =>
          cases hcancelled : cancelled with
          | true => rw [hcancelled] at h; cases h; exact .leave rfl
          | false => rw [hcancelled] at h; cases h; exact .begin rfl
      | looking =>
          obtain ⟨jobs, load, available, handled⟩ := q
          cases jobs with
          | nil => cases h; exact .miss rfl
          | cons job jobs => cases h; exact .take rfl
      | entering =>
          simp only [step, Consumer.step] at h
          split at h
          · rename_i hcancelled
            cases h
            exact .turnBack (Bool.and_eq_true_iff.mp hcancelled).1
          · cases h
            cases hwoken : (q.available.wait .dispatcher).2 with
            | true => exact .passBy hwoken
            | false => exact .park hwoken
      | parked =>
          simp only [step, Consumer.step] at h
          split at h
          · rename_i hcancelled
            cases h
            exact .breakOff (Bool.and_eq_true_iff.mp hcancelled).1
          · simp only [Option.map_map, Option.map_eq_some_iff] at h
            obtain ⟨available, htake, heq⟩ := h
            cases heq
            exact .wake htake
      | returned job =>
          cases job with
          | none => cases h; exact .giveUp
          | some job => cases h; exact .carry
  | launching job => cases h; exact .launch
  | stopped => cases h

end Steps

end Dispatcher

end JobWorker
