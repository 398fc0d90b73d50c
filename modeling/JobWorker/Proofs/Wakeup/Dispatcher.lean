import JobWorker.Proofs.Step.Dispatcher
import JobWorker.Proofs.Step.Poller

/-!
# `JobWorker.Proofs.Wakeup.Dispatcher` — the dispatcher overlooks no job

The dispatcher waits for a job after it found the queue empty, and a job may come in between the look and the wait.
Its wake-up is not lost then, because a signal without a waiter keeps one, and because the dispatcher has the signal
for itself. So it is *alert*: while it waits, the queue is empty, or a wake-up is there for it, or the poller, which
has just put a job into the queue, is about to raise the signal.

## Contents
- **Signals with one waiter.** `Signal.Rung`, `Signal.Serves` and what each operation makes of it.
- **Places.** Where the two loops wait, and when the poller announces a job.
- **The dispatcher.** `Dispatcher.Alert`, kept by its own steps (`Dispatcher.Alert.step`) and by those of the poller
  (`Poller.step_announces`).
-/

namespace JobWorker

/-! ## Signals with one waiter -/

namespace Signal

variable {ι : Type} {who : ι} {parked : Bool} {s s' : Signal ι}

/-- A wake-up is there for a waiter: it is stored, or was given to it. -/
def Rung (who : ι) (s : Signal ι) : Prop := s.stored = true ∨ who ∈ s.woken

/-- A signal that has one waiter, who stands in the line or was woken as long as it is parked. -/
inductive Serves (who : ι) : Bool → Signal ι → Prop where
  | apart {stored} : Serves who false { stored, waiting := [], woken := [] }
  | waiting : Serves who true { stored := false, waiting := [who], woken := [] }
  | woken {stored} : Serves who true { stored, waiting := [], woken := [who] }

/-- Whoever raises the signal leaves a wake-up. -/
theorem Serves.notify (h : Serves who parked s) : Serves who parked s.notify ∧ s.notify.Rung who := by
  cases h with
  | apart => exact ⟨.apart, .inl rfl⟩
  | waiting => exact ⟨.woken, .inr List.mem_cons_self⟩
  | woken => exact ⟨.woken, .inl rfl⟩

/-- Whoever begins to wait takes a wake-up that is there, and otherwise is parked. -/
theorem Serves.wait (h : Serves who false s) :
    Serves who (!(s.wait who).2) (s.wait who).1 ∧ ((s.wait who).2 = false → ¬ s.Rung who) := by
  cases h with
  | @apart stored =>
      cases stored with
      | true => exact ⟨.apart, fun hwoken => nomatch hwoken⟩
      | false =>
          refine ⟨.waiting, fun _ hrung => ?_⟩
          rcases hrung with hstored | hwoken
          · cases hstored
          · cases hwoken

variable [DecidableEq ι]

/-- Whoever notices a wake-up is parked no more. -/
theorem Serves.take (h : Serves who true s) (ht : s.take? who = some s') : Serves who false s' := by
  cases h with
  | waiting => simp [take?] at ht
  | woken =>
      simp only [take?, List.mem_singleton, if_true, List.erase_cons_head, Option.some.injEq] at ht
      rw [← ht]
      exact .apart

/-- Whoever is parked and notices nothing has no wake-up. -/
theorem Serves.not_rung (h : Serves who true s) (ht : s.take? who = none) : ¬ s.Rung who := by
  intro hrung
  cases h with
  | waiting =>
      rcases hrung with hstored | hwoken
      · cases hstored
      · cases hwoken
  | woken => simp [take?] at ht

/-- Whoever stops waiting leaves the signal behind. -/
theorem Serves.leave (h : Serves who true s) : Serves who false (s.leave who) := by
  cases h with
  | waiting =>
      have hleft : Signal.leave who ⟨false, [who], []⟩ = ⟨false, [], []⟩ := by simp [Signal.leave]
      rw [hleft]
      exact .apart
  | @woken stored =>
      have hleft : Signal.leave who ⟨stored, [], [who]⟩ = ⟨true, [], []⟩ := by simp [Signal.leave, Signal.notify]
      rw [hleft]
      exact .apart

end Signal

/-! ## Where they wait -/

/-- Whether a dispatcher stands in the line of the signal of a push. -/
def Dispatcher.isParked {α : Type} : Dispatcher α → Bool
  | .fetching .parked => true
  | _                 => false

/-- Whether a dispatcher has found the queue empty and waits, or is about to. -/
def Dispatcher.isWaiting {α : Type} : Dispatcher α → Bool
  | .fetching .entering | .fetching .parked => true
  | _                                       => false

/-- Whether a dispatcher has been stopped. -/
def Dispatcher.isLeaving {α : Type} : Dispatcher α → Bool
  | .fetching (.returned none) | .stopped => true
  | _                                     => false

/-- Whether a poller has put a job into the queue and is about to raise the signal. -/
def Poller.isAnnouncing (p : Poller) : Bool :=
  match p.phase with
  | .stored _ _ => true
  | _           => false

/-- Whether a poller stands in the line of the signal of the end of a handling. -/
def Poller.isParked (p : Poller) : Bool :=
  match p.phase with
  | .waiting (.parked _) => true
  | _                    => false

/-- Whether a poller has found enough jobs in hand and waits, or is about to. -/
def Poller.isWaiting (p : Poller) : Bool :=
  match p.phase with
  | .waiting (.entering _) | .waiting (.parked _) => true
  | _                                             => false

/-! ## The dispatcher -/

/-- A dispatcher that waits will not overlook a job: the queue is empty, or a wake-up is there, or the poller is
about to raise the signal. -/
structure Dispatcher.Alert (announcing : Bool) (q : JobQueue Party Job) (d : Dispatcher Job) : Prop where
  signal : q.available.Serves .dispatcher d.isParked
  job : d.isWaiting = true → q.jobs = [] ∨ q.available.Rung .dispatcher ∨ announcing = true

namespace Dispatcher

variable {d d' : Dispatcher Job} {q q' : JobQueue Party Job} {effect : Dispatch Job}
variable {announcing cancelled token : Bool} {freeSlots : Nat}

/-- One that does not wait has nothing to be alert of. -/
theorem Alert.of_not_waiting (signal : q.available.Serves .dispatcher false) (hparked : d.isParked = false)
    (hwaiting : d.isWaiting = false) : d.Alert announcing q := by
  constructor
  · rw [hparked]
    exact signal
  · intro h
    rw [hwaiting] at h
    cases h

/-- What touches neither the jobs nor their signal does not concern it. -/
theorem Alert.congr (hd : d.Alert announcing q) (hjobs : q'.jobs = q.jobs)
    (havailable : q'.available = q.available) : d.Alert announcing q' := by
  constructor
  · rw [havailable]
    exact hd.signal
  · rw [hjobs, havailable]
    exact hd.job

/-- **The dispatcher stays alert,** where it has looked, where it joins the line, and where it leaves it. -/
theorem Alert.step (hd : d.Alert announcing q)
    (h : d.step .dispatcher cancelled token freeSlots q = some (q', d', effect)) : d'.Alert announcing q' := by
  have signal := hd.signal
  cases step_cases h with
  | stop | acquire | leave | begin | take | turnBack | giveUp | carry | launch => exact .of_not_waiting signal rfl rfl
  | miss hempty =>
      -- it has seen that the queue is empty
      exact ⟨signal, fun _ => .inl hempty⟩
  | passBy hwoken =>
      obtain ⟨hserves, -⟩ := Signal.Serves.wait signal
      rw [hwoken] at hserves
      exact .of_not_waiting hserves rfl rfl
  | park hwoken =>
      obtain ⟨hserves, hnone⟩ := Signal.Serves.wait signal
      rw [hwoken] at hserves
      refine ⟨hserves, fun _ => ?_⟩
      -- no wake-up was there, so that one of the other two holds
      rcases hd.job rfl with hempty | hrung | hannouncing
      · exact .inl hempty
      · exact absurd hrung (hnone hwoken)
      · exact .inr (.inr hannouncing)
  | breakOff => exact .of_not_waiting signal.leave rfl rfl
  | wake htake => exact .of_not_waiting (signal.take htake) rfl rfl

/-- What the dispatcher leaves alone, and when it goes. -/
theorem step_frame (h : d.step .dispatcher cancelled token freeSlots q = some (q', d', effect)) :
    q'.load = q.load ∧ q'.handled = q.handled ∧
      (d'.isLeaving = true → d.isLeaving = true ∨ cancelled = true) := by
  cases step_cases h with
  | stop hcancelled | leave hcancelled | turnBack hcancelled | breakOff hcancelled =>
      exact ⟨rfl, rfl, fun _ => .inr hcancelled⟩
  | giveUp => exact ⟨rfl, rfl, fun _ => .inl rfl⟩
  | _ => exact ⟨rfl, rfl, fun hleaving => nomatch hleaving⟩

end Dispatcher

namespace Poller

variable {p p' : Poller} {q q' : JobQueue Party Job} {now : Time} {cancelled token timer : Bool}

/-- A call that goes on or is over announces nothing and waits for no room. -/
theorem follow_apart (now : Time) (call : Activation) (p : Poller) :
    (p.follow now call).isAnnouncing = false ∧ (p.follow now call).isParked = false ∧
      (p.follow now call).isWaiting = false := by
  rcases follow_cases now call p with ⟨-, hfollow⟩ | ⟨result, -, ⟨turn, hfollow⟩ | ⟨due, hfollow⟩⟩ <;>
    (rw [hfollow]; exact ⟨rfl, rfl, rfl⟩)

/-- **A push does not pass the dispatcher by:** a job that enters the queue is announced. -/
theorem step_announces {d : Dispatcher Job} (hd : d.Alert p.isAnnouncing q)
    (h : p.step now cancelled token timer q = some (q', p')) : d.Alert p'.isAnnouncing q' := by
  cases step_cases h with
  | follow =>
      rw [(follow_apart _ _ _).1]
      exact hd
  | store =>
      -- between the two parts of a push the poller is about to raise the signal
      exact ⟨hd.signal, fun _ => .inr (.inr rfl)⟩
  | announce =>
      obtain ⟨hserves, hrung⟩ := hd.signal.notify
      exact ⟨hserves, fun _ => .inr (.inl hrung)⟩
  | _ => exact ⟨hd.signal, hd.job⟩

end Poller

end JobWorker
