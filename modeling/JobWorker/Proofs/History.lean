import JobWorker.Worker

/-!
# `JobWorker.Proofs.History` — what happens to jobs along a run

A run of a worker is a list of actions. Most of what is promised about a worker is about the order and the
number of a few things that happen on the way: a batch comes in, a job is counted, put into the queue and
taken out of it, and a handling goes from phase to phase. This module reads these *events* off a run. An
event is a function of the action and of the two states around it, so that a history is computed, not
assumed.

Every handling passes the same four **milestones** in the same order: its handler is called, what the handler
left is judged, the job is counted as handled, and the end of the handling is announced. Being handled exactly
once is a statement about milestones.

## Contents
- **Milestones.** `Milestone`, `HandlingPhase.isPast`.
- **Events.** `Event`, `Worker.events`, `Worker.history`, `Worker.isOf_of_mem_events`.
- **Views.** `History.received`, `History.counted`, `History.taken`, `History.uses`, `History.passings`,
  `History.losses`.
- **Composition.** `Worker.run_append`, `Worker.history_append`.
-/

namespace JobWorker

/-! ## Milestones -/

/-- What every handling does once on its way, in this order. -/
inductive Milestone where
  | invoked
  | judged
  | discounted
  | released
deriving DecidableEq, Repr

/-- Whether a handling in this phase is past a milestone. -/
def HandlingPhase.isPast : Milestone → HandlingPhase → Bool
  | .invoked, .starting     => false
  | .invoked, _             => true
  | .judged, .starting      => false
  | .judged, .calling       => false
  | .judged, .running       => false
  | .judged, .returned _    => false
  | .judged, _              => true
  | .discounted, .counted   => true
  | .discounted, .releasing => true
  | .discounted, _          => false
  | .released, .releasing   => true
  | .released, _            => false

/-! ## Events -/

/-- What can happen to requests, jobs and handlings. -/
inductive Event where
  | asked (request : ActivationRequest)
  | received (batch : Batch)
  | counted (job : Job)
  | queued (job : Job)
  | taken (job : Job)
  | used (id : Nat) (phase : HandlingPhase)
  | advanced (id : Nat) (job : Job) (before after : HandlingPhase)
  | collapsed (id : Nat) (job : Job)
deriving Repr

/-- The events of one action that leads from `before` to `after`: none or one. -/
def Worker.events (action : Action) (before after : Worker) : List Event :=
  match action with
  | .poll _ _ =>
    match before.poller.phase with
    | .sizing                  => [.asked after.poller.request]
    | .delivering _ (job :: _) => [.counted job]
    | .counted _ job _         => [.queued job]
    | _                        => []
  | .gateway (.response batch) =>
    match before.poller.phase with
    | .calling (.reading _) => [.received batch]
    | _                     => []
  | .dispatch _ =>
    match before.dispatcher with
    | .fetching .looking => before.queue.jobs.head?.toList.map .taken
    | _                  => []
  | .handle id | .finish id _ | .answer id =>
    match before.handling? id, after.handling? id with
    | some h, some h' => [.advanced id h.job h.phase h'.phase]
    | _, _            => []
  | .use id      => (before.handling? id).toList.map fun h => .used id h.phase
  | .collapse id => (before.handling? id).toList.map fun h => .collapsed id h.job
  | _            => []

/-- The events of a run, in order. -/
def Worker.history : List Action → Worker → List Event
  | [], _                => []
  | action :: actions, w =>
    match w.perform action with
    | some w' => events action w w' ++ history actions w'
    | none    => []

/-- Which events an action can have. -/
def Event.isOf : Action → Event → Bool
  | .poll _ _, .asked _ | .poll _ _, .counted _ | .poll _ _, .queued _ => true
  | .gateway _, .received _                                            => true
  | .dispatch _, .taken _                                              => true
  | .use _, .used _ _                                                  => true
  | .handle _, .advanced _ _ _ _ | .finish _ _, .advanced _ _ _ _      => true
  | .answer _, .advanced _ _ _ _                                       => true
  | .collapse _, .collapsed _ _                                        => true
  | _, _                                                               => false

/-- An action has no other events. -/
theorem Worker.isOf_of_mem_events {action : Action} {w w' : Worker} {event : Event}
    (hmem : event ∈ events action w w') : event.isOf action = true := by
  cases action with
  | poll token timer =>
      simp only [events] at hmem
      split at hmem <;> first | (rw [List.mem_singleton.mp hmem]; rfl) | cases hmem
  | gateway heard =>
      cases heard with
      | response batch =>
          simp only [events] at hmem
          split at hmem <;> first | (rw [List.mem_singleton.mp hmem]; rfl) | cases hmem
      | _ => cases hmem
  | dispatch token =>
      simp only [events] at hmem
      split at hmem
      · obtain ⟨job, -, rfl⟩ := List.mem_map.mp hmem
        rfl
      · cases hmem
  | handle id | finish id result | answer id =>
      simp only [events] at hmem
      split at hmem <;> first | (rw [List.mem_singleton.mp hmem]; rfl) | cases hmem
  | use id | collapse id =>
      obtain ⟨h, -, rfl⟩ := List.mem_map.mp hmem
      rfl
  | _ => cases hmem

/-! ## Views of a history -/

namespace History

variable (m : Milestone) (log log' : List Event)

/-- The jobs on the wire that were received, whether or not they convert. -/
def received : List WireJob :=
  log.flatMap fun
    | .received batch => batch
    | _               => []

/-- The jobs that were counted, in order. -/
def counted : List Job :=
  log.filterMap fun
    | .counted job => some job
    | _            => none

/-- The jobs that were taken out of the queue, in order. -/
def taken : List Job :=
  log.filterMap fun
    | .taken job => some job
    | _          => none

/-- The handlings through whose client a command was made, use by use. -/
def uses : List Nat :=
  log.filterMap fun
    | .used id _ => some id
    | _          => none

/-- The handlings that passed a milestone, in order: the job of each, and its number. -/
def passings : List (Job × Nat) :=
  log.filterMap fun
    | .advanced id job before after =>
      if !before.isPast m && after.isPast m then some (job, id) else none
    | _ => none

/-- The handlings that collapsed before a milestone. -/
def losses : List (Job × Nat) :=
  log.filterMap fun
    | .collapsed id job => if HandlingPhase.calling.isPast m then none else some (job, id)
    | _                 => none

@[simp] theorem received_append : received (log ++ log') = received log ++ received log' :=
  List.flatMap_append

@[simp] theorem counted_append : counted (log ++ log') = counted log ++ counted log' :=
  List.filterMap_append

@[simp] theorem taken_append : taken (log ++ log') = taken log ++ taken log' :=
  List.filterMap_append

@[simp] theorem uses_append : uses (log ++ log') = uses log ++ uses log' := List.filterMap_append

@[simp] theorem passings_append : passings m (log ++ log') = passings m log ++ passings m log' :=
  List.filterMap_append

@[simp] theorem losses_append : losses m (log ++ log') = losses m log ++ losses m log' :=
  List.filterMap_append

/-- No handling is lost between its start and the call of its handler. -/
@[simp] theorem losses_invoked : losses .invoked log = [] := by
  unfold losses
  rw [List.filterMap_eq_nil_iff]
  intro event _
  cases event <;> rfl

end History

/-! ## Composition -/

namespace Worker

theorem run_append {as bs : List Action} {w : Worker} :
    run (as ++ bs) w = (run as w).bind (run bs) := by
  induction as generalizing w with
  | nil => rfl
  | cons a as ih =>
      rw [List.cons_append, run, run]
      cases w.perform a with
      | none    => rfl
      | some w' => exact ih

theorem history_append {as bs : List Action} {w w' : Worker} (h : run as w = some w') :
    history (as ++ bs) w = history as w ++ history bs w' := by
  induction as generalizing w with
  | nil => cases h; rfl
  | cons a as ih =>
      rw [run] at h
      rw [List.cons_append, history, history]
      cases ha : w.perform a with
      | none    => rw [ha] at h; cases h
      | some w₁ =>
          rw [ha] at h
          show events a w w₁ ++ history (as ++ bs) w₁ = events a w w₁ ++ history as w₁ ++ history bs w'
          rw [ih h, List.append_assoc]

end Worker

end JobWorker
