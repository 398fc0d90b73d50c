import JobWorker.Proofs.Slots
import JobWorker.Proofs.Wakeup.Poller

/-!
# `JobWorker.Proofs.Wakeup` — no wake-up is lost

A worker is at rest when none of its tasks can go on by itself: only a timer, the gateway or a handler can make it
move. A worker that was not told to stop is at rest for a good reason. If there are jobs in the queue, every slot
is occupied by a job whose handler runs or whose report waits for its answer. If the poller waits for room, there
are enough jobs in hand, and one of them is in such a handling. Both follow from what holds in every state, that
the two loops are alert to each other's wake-ups.

## Contents
- **Handlings.** `Worker.handling?_of_mem`, `Handling.step_queue`.
- **Workers.** `Worker.Alert`, kept by `Worker.Step.alert`; `Worker.run_alert`.
- **Rest.** `Worker.AtRest` and what it says of each part.
- **The law.** `Worker.run_never_stuck`.
-/

namespace JobWorker

/-! ## Handlings -/

namespace Worker

variable {w : Worker} {h h' : Handling} {id : Nat}

/-- A handling is the one that its number names. -/
theorem handling?_of_mem (hn : w.ledger.Numbered) (hmem : h ∈ w.handlings) : w.handling? h.id = some h := by
  obtain ⟨front, back, hsplit⟩ := List.append_of_mem hmem
  have distinct : (w.handlings.map (·.id)).Nodup := hn.distinct
  rw [hsplit, List.map_append, List.map_cons, List.nodup_append] at distinct
  refine List.find?_eq_some_iff_append.mpr ⟨by simp, front, back, hsplit, fun other hother => ?_⟩
  have hne := distinct.2.2 other.id (List.mem_map_of_mem hother) h.id List.mem_cons_self
  simpa using hne

/-- A handling that changes leaves one that is about to raise the signal there, if it does not cease to be one. -/
theorem counted_setHandling (hn : w.ledger.Numbered) (hh : w.handling? id = some h) (hid : h'.id = h.id)
    (hp : h.phase = .counted → h'.phase = .counted) (hcounted : ∃ other ∈ w.handlings, other.phase = .counted) :
    ∃ other ∈ (w.setHandling h').handlings, other.phase = .counted := by
  obtain ⟨other, hmem, hphase⟩ := hcounted
  by_cases heq : other.id = h.id
  · have hsame := handling?_of_mem hn hmem
    rw [heq, handling?_id hh, hh] at hsame
    cases hsame
    exact ⟨h', List.mem_of_find?_eq_some (handling?_setHandling hh hid), hp hphase⟩
  · refine ⟨other, List.mem_map.mpr ⟨other, hmem, if_neg ?_⟩, hphase⟩
    simpa [hid] using heq

/-- So does one that is gone. -/
theorem counted_dropHandling (hn : w.ledger.Numbered) (hh : w.handling? id = some h) (hp : h.phase ≠ .counted)
    (hcounted : ∃ other ∈ w.handlings, other.phase = .counted) :
    ∃ other ∈ (w.dropHandling id).handlings, other.phase = .counted := by
  obtain ⟨other, hmem, hphase⟩ := hcounted
  have hne : other.id ≠ id := by
    intro heq
    have hsame := handling?_of_mem hn hmem
    rw [heq, hh] at hsame
    cases hsame
    exact hp hphase
  refine ⟨other, List.mem_filter.mpr ⟨hmem, ?_⟩, hphase⟩
  simpa using hne

end Worker

/-- What a handling's own step does to the queue: where it counts its job down, it raises the signal next. -/
theorem Handling.step_queue {config : WorkerConfig} {kind : HandlerKind} {q q' : JobQueue Party Job}
    {h h' : Handling} (hstep : h.step config kind q = some (q', h')) :
    (q' = q ∧ h.phase ≠ .counted) ∨ (q' = q.discount ∧ h'.phase = .counted) ∨ q' = q.release := by
  cases hp : h.phase with
  | starting | calling =>
      simp only [Handling.step, hp] at hstep
      cases hstep
      exact .inl ⟨rfl, by simp⟩
  | returned result =>
      simp only [Handling.step, hp] at hstep
      cases hstep
      exact .inl ⟨rfl, by simp⟩
  | settling =>
      simp only [Handling.step, hp] at hstep
      cases hstep
      exact .inr (.inl ⟨rfl, rfl⟩)
  | counted =>
      simp only [Handling.step, hp] at hstep
      cases hstep
      exact .inr (.inr rfl)
  | running | reporting request | releasing =>
      simp only [Handling.step, hp] at hstep
      cases hstep

/-! ## Workers -/

/-- Both loops of a worker are alert, and the dispatcher stops only when it has been told to. -/
structure Worker.Alert (w : Worker) : Prop where
  dispatcher : w.dispatcher.Alert w.poller.isAnnouncing w.queue
  poller : w.poller.Alert w.handlings w.queue
  leaving : w.dispatcher.isLeaving = true → w.cancelled = true

namespace Worker

section Steps

variable {w w' : Worker} {action : Action} {h h' : Handling} {id : Nat}

/-- A poller that does not wait before and after leaves both alert. -/
theorem Alert.apart {poller : Poller} (hw : w.Alert)
    (hbefore : w.poller.isAnnouncing = false ∧ w.poller.isParked = false)
    (hafter : poller.isAnnouncing = false ∧ poller.isParked = false ∧ poller.isWaiting = false) :
    { w with poller }.Alert := by
  refine ⟨?_, ?_, hw.leaving⟩
  · have hd := hw.dispatcher
    rw [hbefore.1, ← hafter.1] at hd
    exact hd
  · have signal := hw.poller.signal
    rw [hbefore.2] at signal
    exact .of_not_waiting signal hafter.2.1 hafter.2.2

/-- A handling that changes is none that was about to raise the signal, or still is. -/
theorem Alert.setHandling (hw : w.Alert) (hn : w.ledger.Numbered) (hh : w.handling? id = some h)
    (hid : h'.id = h.id) (hp : h.phase = .counted → h'.phase = .counted) : (w.setHandling h').Alert :=
  ⟨hw.dispatcher, hw.poller.congr rfl rfl (counted_setHandling hn hh hid hp), hw.leaving⟩

/-- One that is gone is none. -/
theorem Alert.dropHandling (hw : w.Alert) (hn : w.ledger.Numbered) (hh : w.handling? id = some h)
    (hp : h.phase ≠ .counted) : (w.dropHandling id).Alert :=
  ⟨hw.dispatcher, hw.poller.congr rfl rfl (counted_dropHandling hn hh hp), hw.leaving⟩

/-- A handling that counts its job down is about to raise the signal, and then raises it. -/
theorem Alert.handle {queue : JobQueue Party Job} (hw : w.Alert) (hn : w.ledger.Numbered)
    (hh : w.handling? id = some h) (hstep : h.step w.config w.kind w.queue = some (queue, h')) :
    ({ w with queue }.setHandling h').Alert := by
  have hid := (Handling.step_next hstep).1.id_eq
  rcases Handling.step_queue hstep with ⟨rfl, hp⟩ | ⟨rfl, hp⟩ | rfl
  · exact hw.setHandling hn hh hid fun hcounted => absurd hcounted hp
  · refine ⟨hw.dispatcher.congr rfl rfl, ⟨hw.poller.signal, fun _ => .inr (.inr ?_)⟩, hw.leaving⟩
    have hh' : ({ w with queue := w.queue.discount }.setHandling h').handling? id = some h' :=
      handling?_setHandling hh hid
    exact ⟨h', List.mem_of_find?_eq_some hh', hp⟩
  · obtain ⟨hserves, hrung⟩ := hw.poller.signal.notify
    exact ⟨hw.dispatcher.congr rfl rfl, ⟨hserves, fun _ => .inr (.inl hrung)⟩, hw.leaving⟩

/-- What the dispatcher does to slots and handlings concerns neither of the two. -/
theorem Alert.apply {effect : Dispatch Job} (hw : w.Alert) : (w.apply effect).Alert := by
  cases effect with
  | nothing | takeSlot | returnSlot => exact ⟨hw.dispatcher, hw.poller, hw.leaving⟩
  | launch job =>
      refine ⟨hw.dispatcher, hw.poller.congr rfl rfl fun hraises => ?_, hw.leaving⟩
      obtain ⟨h, hmem, hp⟩ := hraises
      exact ⟨h, List.mem_append_left _ hmem, hp⟩

/-- **Every action leaves both loops alert.** -/
theorem Step.alert (step : w.Step action w') (hn : w.ledger.Numbered) (hw : w.Alert) : w'.Alert := by
  cases step with
  | poll hstep => exact ⟨Poller.step_announces hw.dispatcher hstep, hw.poller.step hstep, hw.leaving⟩
  | again hagain =>
      obtain ⟨hbefore, hafter⟩ := Poller.again_apart hagain
      exact hw.apart hbefore hafter
  | hear hreceive _ =>
      obtain ⟨hbefore, hafter⟩ := Poller.receive_apart hreceive
      exact hw.apart hbefore hafter
  | dispatch hstep =>
      obtain ⟨hload, hhandled, hleaving⟩ := Dispatcher.step_frame hstep
      refine Alert.apply ⟨hw.dispatcher.step hstep, hw.poller.congr hload hhandled fun hraises => hraises, ?_⟩
      intro hleft
      rcases hleaving hleft with hbefore | hcancelled
      · exact hw.leaving hbefore
      · exact hcancelled
  | handle hh hstep => exact hw.handle hn hh hstep
  | retire hh hp | collapse hh hp => exact hw.dropHandling hn hh (by simp [hp])
  | use hh _ => exact hw.setHandling hn hh rfl id
  | finish _ hh hp | answer hh hp => exact hw.setHandling hn hh rfl (by simp [hp])
  | aside _ _ hcancelled =>
      exact ⟨hw.dispatcher, hw.poller, fun hleaving => hcancelled (hw.leaving hleaving)⟩

end Steps

variable {config : WorkerConfig} {kind : HandlerKind} {now : Time} {actions : List Action} {w : Worker}

/-- So **both loops are alert** after every run. -/
theorem run_alert (h : run actions (start config kind now) = some w) : w.Alert := by
  have opening : (start config kind now).Alert :=
    ⟨.of_not_waiting .apart rfl rfl, .of_not_waiting .apart rfl rfl, fun hleaving => nomatch hleaving⟩
  have kept := run_keeps (P := fun w => w.ledger.Numbered ∧ w.Alert)
    (fun hP hv => ⟨(perform_step hP.1 hv).numbered hP.1, (perform_cases hv).alert hP.1 hP.2⟩)
    ⟨start_balanced.numbered, opening⟩ h
  exact kept.2

/-! ## Rest -/

/-- A worker at rest: none of its tasks can go on by itself. What can still move it is a timer, the gateway, a
handler, or somebody who closes it. -/
structure AtRest (w : Worker) : Prop where
  poll : ∀ token timer, w.perform (.poll token timer) = none
  pollAgain : w.perform .pollAgain = none
  dispatch : ∀ token, w.perform (.dispatch token) = none
  handle : ∀ id, w.perform (.handle id) = none
  retire : ∀ id, w.perform (.retire id) = none

end Worker

/-- Whether a handling waits for its handler, or for the answer to its report. -/
def HandlingPhase.isWaiting : HandlingPhase → Bool
  | .running | .reporting _ => true
  | _                       => false

namespace Worker

section Rest

variable {w : Worker}

/-- In a worker at rest every handling waits for somebody else. -/
theorem AtRest.handlings (hrest : w.AtRest) (hn : w.ledger.Numbered) :
    ∀ h ∈ w.handlings, h.phase.isWaiting = true := by
  intro h hmem
  have hh := handling?_of_mem hn hmem
  have hhandle : w.handle h.id = none := hrest.handle h.id
  have hretire : w.retire h.id = none := hrest.retire h.id
  simp only [Worker.handle, Worker.retire, hh, Option.bind_eq_bind, Option.bind_some, Handling.step] at hhandle hretire
  cases hp : h.phase with
  | running | reporting request => rfl
  | releasing => rw [hp] at hretire; cases hretire
  | starting | calling | returned result | settling | counted => rw [hp] at hhandle; cases hhandle

/-- It is not half-way in a push. -/
theorem AtRest.not_announcing (hrest : w.AtRest) : w.poller.isAnnouncing = false ∧ w.poller.entering = none := by
  have hstep := Option.map_eq_none_iff.mp (hrest.poll true true)
  unfold Poller.step at hstep
  unfold Poller.isAnnouncing Poller.entering
  cases hp : w.poller.phase with
  | counted call job jobs | stored call jobs => rw [hp] at hstep; cases hstep
  | _ => exact ⟨rfl, rfl⟩

/-- Its dispatcher waits for a slot, of which none is free, or for a job, of which none is there. -/
theorem AtRest.dispatcher_cases (hrest : w.AtRest) (hw : w.Alert) (hrunning : w.cancelled = false) :
    w.dispatcher = .acquiring ∧ w.freeSlots = 0 ∨ w.dispatcher = .fetching .parked ∧ w.queue.jobs = [] := by
  have hstep := Option.map_eq_none_iff.mp (hrest.dispatch true)
  have hd := hw.dispatcher
  have hleaving := hw.leaving
  rw [hrunning] at hstep hleaving
  rw [hrest.not_announcing.1] at hd
  cases hdispatcher : w.dispatcher with
  | acquiring =>
      rw [hdispatcher] at hstep
      simp only [Dispatcher.step, Bool.false_and] at hstep
      refine .inl ⟨rfl, ?_⟩
      by_cases hfree : 0 < w.freeSlots
      · simp [hfree] at hstep
      · exact Nat.eq_zero_of_not_pos hfree
  | fetching consumer =>
      rw [hdispatcher] at hstep hd hleaving
      cases consumer with
      | checking => cases hstep
      | looking =>
          simp only [Dispatcher.step, Consumer.step, Option.map_eq_none_iff] at hstep
          split at hstep <;> cases hstep
      | entering => cases hstep
      | parked =>
          simp only [Dispatcher.step, Consumer.step, Bool.false_and, Bool.false_eq_true, if_false,
            Option.map_eq_none_iff] at hstep
          refine .inr ⟨rfl, ?_⟩
          -- it has not been woken, and nobody is about to wake it
          rcases hd.job rfl with hempty | hrung | hannouncing
          · exact hempty
          · exact absurd hrung (Signal.Serves.not_rung hd.signal hstep)
          · cases hannouncing
      | returned job =>
          cases job with
          | none => cases hleaving rfl
          | some job => cases hstep
  | launching job => rw [hdispatcher] at hstep; cases hstep
  | stopped => rw [hdispatcher] at hleaving; cases hleaving rfl

/-- If its poller waits for room, the interval has not ended, and there are enough jobs in hand. -/
theorem AtRest.poller_waiting (hrest : w.AtRest) (hw : w.Alert) (hn : w.ledger.Numbered)
    (hrunning : w.cancelled = false) {due : Time} (hp : w.poller.phase = .waiting (.parked due)) :
    w.now < due ∧ w.queue.load.refillLevel ≤ w.inHand := by
  have hstep := Option.map_eq_none_iff.mp (hrest.poll true true)
  have hparked : w.poller.isParked = true := by simp only [Poller.isParked, hp]
  have hwaiting : w.poller.isWaiting = true := by simp only [Poller.isWaiting, hp]
  have signal := hw.poller.signal
  rw [hparked] at signal
  simp only [Poller.step, hp, CapacityWait.step, hrunning, Bool.false_eq_true, if_false,
    Option.map_eq_none_iff, Bool.true_or, Bool.and_true, decide_eq_true_eq] at hstep
  split at hstep
  · cases hstep
  · rename_i hdue
    refine ⟨Nat.lt_of_not_le hdue, ?_⟩
    rcases hw.poller.room hwaiting with henough | hrung | ⟨h, hmem, hcounted⟩
    · exact henough
    · exact absurd hrung (signal.not_rung (Option.map_eq_none_iff.mp hstep))
    · -- a handling that is about to raise the signal does not wait
      have hwaits := hrest.handlings hn h hmem
      rw [hcounted] at hwaits
      cases hwaits

end Rest

/-! ## The law -/

/-- With jobs in the queue, a worker at rest has a handling in every slot. -/
theorem AtRest.length_handlings {w : Worker} (hrest : w.AtRest) (hw : w.Alert) (hrunning : w.cancelled = false)
    (hjobs : w.queue.jobs ≠ []) : w.handlings.length = w.slots := by
  rcases hrest.dispatcher_cases hw hrunning with ⟨hacquiring, hfree⟩ | ⟨-, hempty⟩
  · rw [slots, hacquiring, hfree]
    show w.handlings.length = 0 + 0 + w.handlings.length
    omega
  · exact absurd hempty hjobs

/-- **No worker is ever stuck.** Take a worker that has not been told to stop, after any run in which no handler
broke down while it was being made, and let it be at rest. If there are jobs in the queue, every slot is occupied
by a handling that waits for its handler or for the answer to its report. If the poller waits for room, its
interval has not ended, at least three fifths of the limit are in hand, and one of these jobs is in such a handling.
So whenever something can go on, it does, or it waits for somebody outside. -/
theorem run_never_stuck {config : WorkerConfig} {kind : HandlerKind} {now : Time} {actions : List Action}
    {w : Worker} (h : run actions (start config kind now) = some w) (hc : ∀ id, .collapse id ∉ actions)
    (hrunning : w.cancelled = false) (hrest : w.AtRest) :
    (w.queue.jobs ≠ [] → w.handlings.length = max config.handlerThreads 1 ∧
      ∀ hd ∈ w.handlings, hd.phase.isWaiting = true) ∧
    ∀ due, w.poller.phase = .waiting (.parked due) →
      w.now < due ∧ (max config.maxJobsActive 1 * 3 + 4) / 5 ≤ w.inHand ∧
      ∃ hd ∈ w.handlings, hd.phase.isWaiting = true := by
  have hn := (run_balanced h).numbered
  have hw := run_alert h
  have hslots := run_slots h
  have hwaits := hrest.handlings hn
  have hfull : w.queue.jobs ≠ [] → w.handlings.length = max config.handlerThreads 1 := by
    intro hjobs
    rw [hrest.length_handlings hw hrunning hjobs, hslots]
  refine ⟨fun hjobs => ⟨hfull hjobs, hwaits⟩, fun due hparked => ?_⟩
  obtain ⟨hdue, henough⟩ := hrest.poller_waiting hw hn hrunning hparked
  rw [Workload.refillLevel, run_limit h] at henough
  refine ⟨hdue, henough, ?_⟩
  -- without a handling nothing would be in hand
  cases hhandlings : w.handlings with
  | cons hd rest => exact ⟨hd, List.mem_cons_self, hwaits hd (hhandlings ▸ List.mem_cons_self)⟩
  | nil =>
      have hjobs : w.queue.jobs = [] := by
        cases hjobs : w.queue.jobs with
        | nil => rfl
        | cons job jobs =>
            have hlength := hfull (by simp [hjobs])
            rw [hhandlings, List.length_nil] at hlength
            omega
      have hheld : w.dispatcher.held = none := by
        rcases hrest.dispatcher_cases hw hrunning with ⟨hacquiring, -⟩ | ⟨hfetching, -⟩
        · rw [hacquiring]
          rfl
        · rw [hfetching]
          rfl
      have hzero := ((run_inHand_exact h hc).2.2.2.2.2 hjobs hrest.not_announcing.2 hheld
        (by simp [hhandlings])).1
      rw [hzero] at henough
      omega

/-- A run in which the dispatcher looks before the first of two jobs is pushed and joins the line afterwards; then
the poller finds enough jobs in hand and waits. -/
def racedRun : List Action :=
  [.poll true true, .poll true true, .poll true true, .gateway .opened,
    .gateway (.response [{ key := 1 }, { key := 2 }]), .dispatch true, .dispatch true, .dispatch true,
    .poll true true, .poll true true, .poll true true, .poll true true, .poll true true, .poll true true,
    .poll true true, .dispatch true, .dispatch true, .dispatch true, .dispatch true, .dispatch true,
    .handle 0, .handle 0, .gateway .ended, .pollAgain, .poll true true, .poll true true, .poll true true]

/-- At the end of it the worker is at rest with one job queued and one whose handler runs. -/
theorem not_stuck_after_race :
    ∃ w, run racedRun (start { jobType := "foo", workerName := "worker", maxJobsActive := 2 } .async 0) = some w ∧
      (∀ id, .collapse id ∉ racedRun) ∧ w.cancelled = false ∧ w.AtRest ∧ w.queue.jobs.map (·.key) = [2] ∧
      w.handlings.length = 1 ∧ (∃ due, w.poller.phase = .waiting (.parked due)) ∧ 2 ≤ w.inHand ∧
      ∃ hd ∈ w.handlings, hd.phase.isWaiting = true := by
  obtain ⟨w, hrun⟩ : ∃ w, run racedRun
      (start { jobType := "foo", workerName := "worker", maxJobsActive := 2 } .async 0) = some w := ⟨_, rfl⟩
  have hc : ∀ id, .collapse id ∉ racedRun := by simp [racedRun]
  have hrunning : w.cancelled = false := by cases hrun; rfl
  have hrest : w.AtRest := by
    cases hrun
    constructor
    · intro token timer
      cases token <;> cases timer <;> rfl
    · rfl
    · intro token
      cases token <;> rfl
    · intro id
      cases id <;> rfl
    · intro id
      cases id <;> rfl
  have hqueue : w.queue.jobs.map (·.key) = [2] := by cases hrun; rfl
  have hjobs : w.queue.jobs ≠ [] := by
    intro hempty
    rw [hempty] at hqueue
    cases hqueue
  obtain ⟨due, hparked⟩ : ∃ due, w.poller.phase = .waiting (.parked due) := by cases hrun; exact ⟨_, rfl⟩
  obtain ⟨hfull, hroom⟩ := run_never_stuck hrun hc hrunning hrest
  obtain ⟨-, henough, hhandling⟩ := hroom due hparked
  exact ⟨w, hrun, hc, hrunning, hrest, hqueue, (hfull hjobs).1, ⟨due, hparked⟩, henough, hhandling⟩

end Worker

end JobWorker
