import JobWorker.Handling
import JobWorker.Proofs.Wakeup.Dispatcher

/-!
# `JobWorker.Proofs.Wakeup.Poller` — the poller overlooks no room

The poller waits for room after it found enough jobs in hand, and a handling may end in between. A handling counts
its job down first and raises the signal next. So the poller is *alert*: while it waits, there are enough jobs in
hand, or a wake-up is there for it, or a handling is about to raise the signal.

## Contents
- **The poller.** `Poller.Alert`, kept by its own steps (`Poller.Alert.step`).
- **Steps from outside.** `Poller.receive_apart`, `Poller.again_apart`.
-/

namespace JobWorker

/-! ## The poller -/

/-- A poller that waits will not overlook room: there are enough jobs in hand, or a wake-up is there, or a handling
has counted its job down and is about to raise the signal. -/
structure Poller.Alert (handlings : List Handling) (q : JobQueue Party Job) (p : Poller) : Prop where
  signal : q.handled.Serves .poller p.isParked
  room : p.isWaiting = true → q.load.refillLevel ≤ q.load.inHand ∨ q.handled.Rung .poller ∨
    ∃ h ∈ handlings, h.phase = .counted

namespace Poller

variable {p p' : Poller} {q q' : JobQueue Party Job} {now : Time} {cancelled token timer : Bool}
variable {handlings handlings' : List Handling}

/-- One that does not wait has nothing to be alert of. -/
theorem Alert.of_not_waiting (signal : q.handled.Serves .poller false) (hparked : p.isParked = false)
    (hwaiting : p.isWaiting = false) : p.Alert handlings q := by
  constructor
  · rw [hparked]
    exact signal
  · intro h
    rw [hwaiting] at h
    cases h

/-- What touches neither the count of jobs nor its signal does not concern it, as long as whoever was about to raise
the signal still is. -/
theorem Alert.congr (hp : p.Alert handlings q) (hload : q'.load = q.load) (hhandled : q'.handled = q.handled)
    (hcounted : (∃ h ∈ handlings, h.phase = .counted) → ∃ h ∈ handlings', h.phase = .counted) :
    p.Alert handlings' q' := by
  constructor
  · rw [hhandled]
    exact hp.signal
  · intro hwaiting
    rw [hload, hhandled]
    rcases hp.room hwaiting with henough | hrung | hraises
    · exact .inl henough
    · exact .inr (.inl hrung)
    · exact .inr (.inr (hcounted hraises))

/-- **The poller stays alert,** where it has counted, where it joins the line, and where it leaves it. -/
theorem Alert.step (hp : p.Alert handlings q) (h : p.step now cancelled token timer q = some (q', p')) :
    p'.Alert handlings q' := by
  have signal := hp.signal
  cases step_cases h with
  | follow => exact .of_not_waiting signal (follow_apart _ _ _).2.1 (follow_apart _ _ _).2.2
  | wait henough =>
      -- it has seen that there are enough jobs in hand
      exact ⟨signal, fun _ => .inl henough⟩
  | passBy hwoken =>
      obtain ⟨hserves, -⟩ := Signal.Serves.wait signal
      rw [hwoken] at hserves
      exact .of_not_waiting hserves rfl rfl
  | park hwoken =>
      obtain ⟨hserves, hnone⟩ := Signal.Serves.wait signal
      rw [hwoken] at hserves
      refine ⟨hserves, fun _ => ?_⟩
      -- no wake-up was there, so that one of the other two holds
      rcases hp.room rfl with henough | hrung | hcounted
      · exact .inl henough
      · exact absurd hrung (hnone hwoken)
      · exact .inr (.inr hcounted)
  | giveUp | timeOut => exact .of_not_waiting signal.leave rfl rfl
  | wake htake => exact .of_not_waiting (signal.take htake) rfl rfl
  | _ => exact .of_not_waiting signal rfl rfl

/-- What comes from outside finds a poller that does not wait, and leaves it so. -/
theorem receive_apart {event : CallEvent} (h : p.receive now event = some p') :
    (p.isAnnouncing = false ∧ p.isParked = false) ∧ p'.isAnnouncing = false ∧ p'.isParked = false ∧
      p'.isWaiting = false := by
  obtain ⟨request, interval, phase⟩ := p
  cases phase with
  | calling call =>
      refine ⟨⟨rfl, rfl⟩, ?_⟩
      simp only [receive] at h
      split at h
      · cases h; exact ⟨rfl, rfl, rfl⟩
      · cases h; exact follow_apart now _ _
  | _ => cases h

/-- So does the beginning of a turn. -/
theorem again_apart (h : p.again = some p') :
    (p.isAnnouncing = false ∧ p.isParked = false) ∧ p'.isAnnouncing = false ∧ p'.isParked = false ∧
      p'.isWaiting = false := by
  obtain ⟨request, interval, phase⟩ := p
  cases phase with
  | ended turn => cases turn <;> cases h <;> exact ⟨⟨rfl, rfl⟩, rfl, rfl, rfl⟩
  | _ => cases h

end Poller

end JobWorker
