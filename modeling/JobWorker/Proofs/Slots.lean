import JobWorker.Proofs.Occupancy
import JobWorker.Proofs.Step

/-!
# `JobWorker.Proofs.Slots` — no slot is lost

A slot is free, or the dispatcher holds it while it looks for a job, or a handling has taken it along. Every
action keeps the sum, so that it is for ever the number of slots that the worker was opened with. A job that
was taken out of the queue and whose handling is not over occupies a slot, which bounds how many there are.

## Contents
- **The account.** `Dispatcher.slots`, `Worker.slots`.
- **Steps and runs.** `Worker.Step.slots_eq`, `Worker.run_slots`.
- **The bound.** `Worker.length_awaiting_le`.
-/

namespace JobWorker

/-! ## The account -/

/-- How many slots a dispatcher holds. -/
def Dispatcher.slots {α : Type} : Dispatcher α → Nat
  | .fetching _ | .launching _ => 1
  | .acquiring | .stopped      => 0

/-- A job that is held occupies the slot of the dispatcher. -/
theorem Dispatcher.length_held_le {α : Type} (d : Dispatcher α) : d.held.toList.length ≤ d.slots := by
  cases d with
  | fetching consumer =>
      cases consumer with
      | returned job =>
          cases job with
          | none => exact Nat.zero_le 1
          | some job => exact Nat.le_refl 1
      | checking | looking | entering | parked => exact Nat.zero_le 1
  | launching job => exact Nat.le_refl 1
  | acquiring | stopped => exact Nat.le_refl 0

namespace Worker

/-- The slots of a worker, wherever they are. -/
def slots (w : Worker) : Nat := w.freeSlots + w.dispatcher.slots + w.handlings.length

/-! ## Steps and runs -/

section Steps

variable {w w' : Worker} {action : Action}

/-- A handling that goes on keeps its slot. -/
theorem slots_setHandling (w : Worker) (h : Handling) : (w.setHandling h).slots = w.slots := by
  show _ + (w.handlings.map _).length = _
  rw [List.length_map]
  rfl

/-- A handling that is gone gives its slot back. -/
theorem slots_dropHandling {id : Nat} {h : Handling} (hn : w.ledger.Numbered)
    (hh : w.handling? id = some h) : (w.dropHandling id).slots = w.slots := by
  obtain ⟨-, front, back, hsplit, hledger⟩ := ledger_dropHandling hn hh
  have hbefore : w.handlings = front ++ h :: back := hsplit
  have hafter : (w.dropHandling id).handlings = front ++ back := congrArg Ledger.handlings hledger
  have hlength : w.handlings.length = (w.dropHandling id).handlings.length + 1 := by
    rw [hbefore, hafter, List.length_append, List.length_append, List.length_cons]
    omega
  show w.freeSlots + 1 + w.dispatcher.slots + (w.dropHandling id).handlings.length =
    w.freeSlots + w.dispatcher.slots + w.handlings.length
  omega

/-- The dispatcher takes a slot that is free, gives it back, or hands it on to a handling. -/
theorem slots_dispatch {token : Bool} {queue : JobQueue Party Job} {dispatcher : Dispatcher Job}
    {effect : Dispatch Job} (h : w.dispatcher.step .dispatcher w.cancelled token w.freeSlots w.queue =
      some (queue, dispatcher, effect)) : ({ w with queue, dispatcher }.apply effect).slots = w.slots := by
  obtain ⟨config, kind, now, cancelled, q, poller, d, freeSlots, launched, handlings, closing⟩ := w
  have step : Dispatcher.Step cancelled freeSlots q d queue dispatcher effect := Dispatcher.step_cases h
  cases step with
  | acquire hfree =>
      show freeSlots - 1 + 1 + handlings.length = freeSlots + 0 + handlings.length
      omega
  | giveUp =>
      show freeSlots + 1 + 0 + handlings.length = freeSlots + 1 + handlings.length
      omega
  | launch =>
      show freeSlots + 0 + (handlings ++ [_]).length = freeSlots + 1 + handlings.length
      rw [List.length_append, List.length_singleton]
      omega
  | _ => rfl

/-- **Every action keeps the number of slots.** -/
theorem Step.slots_eq (hn : w.ledger.Numbered) (step : w.Step action w') : w'.slots = w.slots := by
  cases step with
  | poll _ | again _ | hear _ _ | aside _ _ _ => rfl
  | dispatch h => exact slots_dispatch h
  | @handle id h h' queue _ _ => exact slots_setHandling { w with queue } h'
  | use _ _ | finish _ _ _ | answer _ _ => exact slots_setHandling w _
  | retire hh _ | collapse hh _ => exact slots_dropHandling hn hh

end Steps

variable {config : WorkerConfig} {kind : HandlerKind} {now : Time} {actions : List Action} {w : Worker}

/-- A worker has as many slots as it was opened with, and at least one. -/
theorem run_slots (h : run actions (start config kind now) = some w) :
    w.slots = max config.handlerThreads 1 := by
  have opening : (start config kind now).slots = max config.handlerThreads 1 := rfl
  have kept := run_keeps (P := fun w => w.ledger.Numbered ∧ w.slots = max config.handlerThreads 1)
    (fun hP hv => ⟨(perform_step hP.1 hv).numbered hP.1, ((perform_cases hv).slots_eq hP.1).trans hP.2⟩)
    ⟨start_balanced.numbered, opening⟩ h
  exact kept.2

/-! ## The bound -/

/-- Each job whose handling is not over occupies a slot. -/
theorem length_awaiting_le (w : Worker) (m : Milestone) :
    (w.ledger.awaiting m).length ≤ w.dispatcher.slots + w.handlings.length := by
  have hheld := w.dispatcher.length_held_le
  have hle : (w.ledger.awaiting m).length ≤ w.handlings.length + w.dispatcher.held.toList.length :=
    w.ledger.length_awaiting_le m
  omega

/-- So there are no more of them than slots. -/
theorem run_awaiting_le (m : Milestone) (h : run actions (start config kind now) = some w) :
    (w.ledger.awaiting m).length ≤ max config.handlerThreads 1 := by
  have hslots := run_slots h
  have hle := w.length_awaiting_le m
  unfold slots at hslots
  omega

end Worker

end JobWorker
