import JobWorker.Proofs.Ledger.Simulation

/-!
# `JobWorker.Proofs.Step` — what an action makes of a worker

The ledger of a worker knows where jobs are, and nothing of slots, signals, clocks and tokens. A law about
these needs to know what an action does to the whole worker. `Worker.Step` says it, one line for each kind of
action: which part of the worker goes on, under which condition, and that all other parts stay as they are. An
invariant is then proved by cases on the line, and extended to runs by `Worker.run_preserves`.

## Contents
- **Steps.** `Action.isAside`, `Worker.Step`, `Worker.perform_cases`.
- **Runs.** `Worker.run_preserves`, `Worker.run_keeps`.
-/

namespace JobWorker

/-- The actions that concern only the clock, the token and the closing of a worker. -/
def Action.isAside : Action → Bool
  | .cancel | .close | .endLoops | .endHandlings _ | .pass _ => true
  | _                                                       => false

/-- They are none of the poller. -/
theorem Action.isPolling_of_isAside {action : Action} (h : action.isAside = true) : action.isPolling = false := by
  cases action <;> first | rfl | cases h

namespace Worker

/-- What an action makes of a worker: one part goes on, and the others stay as they are. -/
inductive Step (w : Worker) : Action → Worker → Prop where
  | poll {token timer queue poller} :
      w.poller.step w.now w.cancelled token timer w.queue = some (queue, poller) →
      Step w (.poll token timer) { w with queue, poller }
  | again {poller} : w.poller.again = some poller → Step w .pollAgain { w with poller }
  | hear {event poller} : w.poller.receive w.now event = some poller →
      (event = .cancelled → w.cancelled = true) → Step w (.gateway event) { w with poller }
  | dispatch {token queue dispatcher effect} :
      w.dispatcher.step .dispatcher w.cancelled token w.freeSlots w.queue =
        some (queue, dispatcher, effect) →
      Step w (.dispatch token) ({ w with queue, dispatcher }.apply effect)
  | handle {id h h' queue} : w.handling? id = some h →
      h.step w.config w.kind w.queue = some (queue, h') →
      Step w (.handle id) ({ w with queue }.setHandling h')
  | retire {id h} : w.handling? id = some h → h.phase = .releasing →
      Step w (.retire id) (w.dropHandling id)
  | collapse {id h} : w.handling? id = some h → h.phase = .calling →
      Step w (.collapse id) (w.dropHandling id)
  | use {id h} : w.handling? id = some h → h.phase ≠ .starting →
      Step w (.use id) (w.setHandling { h with used := true })
  | finish {id h} (result) : w.handling? id = some h → h.phase = .running →
      Step w (.finish id result) (w.setHandling { h with phase := .returned result })
  | answer {id h request} : w.handling? id = some h → h.phase = .reporting request →
      Step w (.answer id) (w.setHandling { h with phase := .settling })
  | aside {action now cancelled closing} : action.isAside = true → w.now ≤ now →
      (w.cancelled = true → cancelled = true) → Step w action { w with now, cancelled, closing }

variable {w w' : Worker} {action : Action}

/-- What an action on one handling from outside makes of the worker. -/
theorem outside_cases {id : Nat} {f : Handling → Option Handling}
    (h : ((w.handling? id).bind fun hd => (f hd).map w.setHandling) = some w') :
    ∃ hd hd', w.handling? id = some hd ∧ f hd = some hd' ∧ w' = w.setHandling hd' := by
  obtain ⟨hd, hh, h⟩ := Option.bind_eq_some_iff.mp h
  obtain ⟨hd', hf, rfl⟩ := Option.map_eq_some_iff.mp h
  exact ⟨hd, hd', hh, hf, rfl⟩

/-- **Every action makes one of these steps.** -/
theorem perform_cases (h : w.perform action = some w') : w.Step action w' := by
  cases action with
  | poll token timer =>
      obtain ⟨⟨queue, poller⟩, hstep, rfl⟩ := Option.map_eq_some_iff.mp h
      exact .poll hstep
  | pollAgain =>
      obtain ⟨poller, hagain, rfl⟩ := Option.map_eq_some_iff.mp h
      exact .again hagain
  | gateway event =>
      obtain ⟨poller, hreceive, rfl, hcancelled⟩ := perform_gateway h
      exact .hear hreceive hcancelled
  | dispatch token =>
      obtain ⟨⟨queue, dispatcher, effect⟩, hstep, rfl⟩ := Option.map_eq_some_iff.mp h
      exact .dispatch hstep
  | handle id =>
      obtain ⟨hd, hh, h⟩ := Option.bind_eq_some_iff.mp h
      obtain ⟨⟨queue, hd'⟩, hstep, h⟩ := Option.bind_eq_some_iff.mp h
      cases h
      exact .handle hh hstep
  | retire id =>
      obtain ⟨hd, hh, h⟩ := Option.bind_eq_some_iff.mp h
      cases hp : hd.phase <;> simp only [hp] at h <;> cases h
      exact .retire hh hp
  | collapse id =>
      obtain ⟨hd, hh, h⟩ := Option.bind_eq_some_iff.mp h
      cases hp : hd.phase <;> simp only [hp] at h <;> cases h
      exact .collapse hh hp
  | use id =>
      obtain ⟨hd, hd', hh, huse, rfl⟩ := outside_cases h
      obtain ⟨hp, rfl⟩ := Handling.use_eq_some_iff.mp huse
      exact .use hh hp
  | finish id result =>
      obtain ⟨hd, hd', hh, hfinish, rfl⟩ := outside_cases h
      cases hp : hd.phase <;> simp only [Handling.finish, hp] at hfinish <;> cases hfinish
      exact .finish result hh hp
  | answer id =>
      obtain ⟨hd, hd', hh, hanswered, rfl⟩ := outside_cases h
      cases hp : hd.phase <;> simp only [Handling.answered, hp] at hanswered <;> cases hanswered
      exact .answer hh hp
  | cancel => cases h; exact .aside rfl (Nat.le_refl _) fun _ => rfl
  | pass ticks => cases h; exact .aside rfl (Nat.le_add_right _ _) id
  | close =>
      simp only [perform] at h
      split at h
      · cases h
        exact .aside rfl (Nat.le_refl _) id
      · cases h
        exact .aside rfl (Nat.le_refl _) fun _ => rfl
  | endLoops =>
      simp only [perform, endLoops] at h
      split at h <;> cases h
      exact .aside rfl (Nat.le_refl _) id
  | endHandlings timer =>
      simp only [perform, endHandlings] at h
      repeat' split at h
      all_goals cases h
      all_goals exact .aside rfl (Nat.le_refl _) id

/-- What each action keeps, with the actions so far and their events as part of the state, a run keeps. -/
theorem run_preserves {P : List Action → List Event → Worker → Prop}
    (step : ∀ {past log w action w'}, P past log w → w.perform action = some w' →
      P (past ++ [action]) (log ++ events action w w') w')
    (past : List Action) (log : List Event) {actions : List Action} (hP : P past log w)
    (h : run actions w = some w') : P (past ++ actions) (log ++ history actions w) w' := by
  induction actions generalizing past log w with
  | nil =>
      cases h
      rw [List.append_nil, history, List.append_nil]
      exact hP
  | cons action actions ih =>
      obtain ⟨v, hv, h⟩ := Option.bind_eq_some_iff.mp h
      have hrest := ih _ _ (step hP hv) h
      rw [List.append_assoc, List.append_assoc] at hrest
      rw [history, hv]
      exact hrest

/-- What each action keeps, whatever happened before, a run keeps. -/
theorem run_keeps {P : Worker → Prop}
    (step : ∀ {w action w'}, P w → w.perform action = some w' → P w') {actions : List Action} (hP : P w)
    (h : run actions w = some w') : P w' :=
  run_preserves (P := fun _ _ w => P w) step [] [] hP h

end Worker

end JobWorker
