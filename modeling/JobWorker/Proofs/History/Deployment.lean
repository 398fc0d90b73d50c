import JobWorker.Deployment
import JobWorker.Proofs.History

/-!
# `JobWorker.Proofs.History.Deployment` — what happens to jobs along the run of a deployment

A move of a deployment comes down to at most one action of its worker. So the worker of a deployment goes
through a run of its own, and the events of the one run are those of the other: what is known of the runs of
workers is known of deployments.

## Contents
- **Moves.** `Move.script`, `Deployment.action?`, `Deployment.events`.
- **Runs.** `Deployment.history`, `Deployment.actions`, `Deployment.run_worker`.
- **Composition.** `Deployment.run_append`, `Deployment.history_append`, `Deployment.run_keeps`.
-/

namespace JobWorker

/-- What a move scripts. -/
def Move.script : Move → List Batch
  | .push batch => [batch]
  | _           => []

namespace Deployment

/-- The action of the worker that a move comes down to, if there is one. -/
def action? (move : Move) (d : Deployment) : Option Action :=
  match move with
  | .worker action    => some action
  | .call token timer =>
    match d.link.step d.worker.now d.worker.cancelled token timer d.worker.poller.request d.gateway with
    | some (_, _, some event) => some (.gateway event)
    | _                       => none
  | .report id        => some (.answer id)
  | _                 => none

/-- The events of a move that leads from `before` to `after`. -/
def events (move : Move) (before after : Deployment) : List Event :=
  match before.action? move with
  | some action => Worker.events action before.worker after.worker
  | none        => []

/-- The events of a run, in order. -/
def history : List Move → Deployment → List Event
  | [], _              => []
  | move :: moves, d =>
    match d.perform move with
    | some d' => events move d d' ++ history moves d'
    | none    => []

variable {d d' : Deployment} {move : Move} {moves : List Move}

/-- What a worker makes of what the gateway says, if it says something. -/
def Hears (event : Option CallEvent) (w w' : Worker) : Prop :=
  match event with
  | none       => w' = w
  | some event => w.perform (.gateway event) = some w'

/-- What a step of the open call does: the link goes on, and the worker hears of it if there is an event. -/
theorem call_cases {token timer : Bool} (h : d.call token timer = some d') :
    ∃ call event, d.worker.poller.phase = .calling call ∧
      d.link.step d.worker.now d.worker.cancelled token timer d.worker.poller.request d.gateway =
        some (d'.gateway, d'.link, event) ∧ Hears event d.worker d'.worker := by
  unfold call at h
  split at h
  · rename_i call hphase
    obtain ⟨⟨gateway, link, event⟩, hlink, h⟩ := Option.bind_eq_some_iff.mp h
    refine ⟨call, event, hphase, ?_⟩
    cases event with
    | none => cases h; exact ⟨hlink, rfl⟩
    | some event =>
        obtain ⟨worker, hworker, h⟩ := Option.bind_eq_some_iff.mp h
        cases h
        exact ⟨hlink, hworker⟩
  · cases h

/-- The worker carries out the action of a move, or stays as it is. -/
theorem perform_worker (h : d.perform move = some d') :
    Worker.run (d.action? move).toList d.worker = some d'.worker ∧
      Worker.history (d.action? move).toList d.worker = events move d d' := by
  have single : ∀ {action : Action}, d.action? move = some action →
      d.worker.perform action = some d'.worker →
      Worker.run (d.action? move).toList d.worker = some d'.worker ∧
        Worker.history (d.action? move).toList d.worker = events move d d' := by
    intro action haction hperform
    simp [haction, events, Worker.run, Worker.history, hperform]
  have nothing : d.action? move = none → d'.worker = d.worker →
      Worker.run (d.action? move).toList d.worker = some d'.worker ∧
        Worker.history (d.action? move).toList d.worker = events move d d' := by
    intro haction hworker
    simp [haction, events, Worker.run, Worker.history, hworker]
  cases move with
  | worker action =>
      refine single rfl ?_
      simp only [perform, act] at h
      split at h
      · cases h
      · cases h
      · obtain ⟨worker, hworker, rfl⟩ := Option.map_eq_some_iff.mp h
        exact hworker
  | call token timer =>
      obtain ⟨_, event, -, hlink, hworker⟩ := call_cases h
      cases event with
      | none => exact nothing (by simp only [action?, hlink]) hworker
      | some event => exact single (by simp only [action?, hlink]) hworker
  | report id =>
      refine single rfl ?_
      simp only [perform, report] at h
      obtain ⟨hd, -, h⟩ := Option.bind_eq_some_iff.mp h
      split at h
      · obtain ⟨worker, hworker, h⟩ := Option.bind_eq_some_iff.mp h
        cases h
        exact hworker
      · cases h
  | command request | push batch | failActivations status times | failCommands status times =>
      cases h
      exact nothing rfl rfl

/-- The actions of the worker that a run comes down to, in order. -/
def actions : List Move → Deployment → List Action
  | [], _            => []
  | move :: moves, d =>
    match d.perform move with
    | some d' => (d.action? move).toList ++ actions moves d'
    | none    => []

/-- The worker of a deployment goes through the run of its actions, with the same events. -/
theorem run_actions (h : d.run moves = some d') :
    Worker.run (actions moves d) d.worker = some d'.worker ∧
      Worker.history (actions moves d) d.worker = history moves d := by
  induction moves generalizing d with
  | nil => cases h; exact ⟨rfl, rfl⟩
  | cons move moves ih =>
      obtain ⟨v, hv, h⟩ := Option.bind_eq_some_iff.mp h
      obtain ⟨hfirst, hevents⟩ := perform_worker hv
      obtain ⟨hrest, hhistory⟩ := ih h
      rw [actions, history, hv]
      refine ⟨?_, ?_⟩
      · rw [Worker.run_append, hfirst]
        exact hrest
      · rw [Worker.history_append hfirst, hevents, hhistory]

/-- So it goes through some run of its own. -/
theorem run_worker (h : d.run moves = some d') : ∃ actions : List Action,
    Worker.run actions d.worker = some d'.worker ∧ Worker.history actions d.worker = history moves d :=
  ⟨actions moves d, run_actions h⟩

/-! ## Composition -/

theorem run_append {before after : List Move} : run (before ++ after) d = (run before d).bind (run after) := by
  induction before generalizing d with
  | nil => rfl
  | cons move before ih =>
      rw [List.cons_append, run, run]
      cases d.perform move with
      | none => rfl
      | some v => exact ih

theorem history_append {before after : List Move} (h : run before d = some d') :
    history (before ++ after) d = history before d ++ history after d' := by
  induction before generalizing d with
  | nil => cases h; rfl
  | cons move before ih =>
      obtain ⟨v, hv, h⟩ := Option.bind_eq_some_iff.mp h
      rw [List.cons_append, history, history, hv]
      show events move d v ++ history (before ++ after) v = events move d v ++ history before v ++ history after d'
      rw [ih h, List.append_assoc]

/-- What each move keeps, a run keeps. -/
theorem run_keeps {P : Deployment → Prop}
    (step : ∀ {d move d'}, P d → d.perform move = some d' → P d') (hP : P d) (h : run moves d = some d') :
    P d' := by
  induction moves generalizing d with
  | nil => cases h; exact hP
  | cons move moves ih =>
      obtain ⟨v, hv, h⟩ := Option.bind_eq_some_iff.mp h
      exact ih (step hP hv) h

end Deployment

end JobWorker
