import JobWorker.Proofs.Ledger.Balance

/-!
# `JobWorker.Proofs.Occupancy` — what the count of jobs in hand counts

The count goes up in the poller and down at the end of each handling, whichever way the handling went. As long
as no handling collapses it is exact: the jobs in the queue, and those that were taken out of it and whose
handling is not over. Where it would be lowered at zero, it would stay; but it is never lowered at zero. So a
worker with nothing to do counts nothing, and asks for jobs.

## Contents
- **The limit.** `Worker.run_limit`.
- **Losses.** `Worker.losses_history`: only a collapse loses a handling.
- **The count.** `Worker.run_inHand_exact`.
-/

namespace JobWorker

variable {config : WorkerConfig} {kind : HandlerKind} {now : Time} {actions : List Action} {w : Worker}

/-! ## The limit -/

/-- The limit of jobs in hand never changes. -/
theorem Ledger.Step.limit_eq {L L' : Ledger} {log : List Event} (step : Step config L log L') :
    L'.limit = L.limit := by
  cases step <;> rfl

/-- The limit of jobs in hand is what the worker was opened with, and at least one. -/
theorem Worker.run_limit (h : run actions (start config kind now) = some w) :
    w.queue.load.maxJobs = max config.maxJobsActive 1 := by
  have run := run_ledger start_balanced.numbered h
  exact @Ledger.Run.preserves config (fun _ L => L.limit = max config.maxJobsActive 1)
    (fun hL step => step.limit_eq.trans hL) _ _ [] _ rfl run

/-! ## Losses -/

section Losses

open History

/-- An action that is not a collapse loses no handling. -/
theorem Worker.losses_events {m : Milestone} {action : Action} {w w' : Worker}
    (hc : ∀ id, action ≠ .collapse id) : losses m (events action w w') = [] := by
  unfold losses
  rw [List.filterMap_eq_nil_iff]
  intro event hmem
  have hof := isOf_of_mem_events hmem
  cases event with
  | collapsed id job => cases action <;> first | exact absurd rfl (hc _) | cases hof
  | _ => rfl

/-- A run without a collapse loses no handling. -/
theorem Worker.losses_history (m : Milestone) (hc : ∀ id, .collapse id ∉ actions) (w : Worker) :
    losses m (history actions w) = [] := by
  induction actions generalizing w with
  | nil => rfl
  | cons action actions ih =>
      rw [history]
      cases w.perform action with
      | none => rfl
      | some w' =>
          simp only [losses_append]
          rw [losses_events fun id heq => hc id (heq ▸ List.mem_cons_self), List.nil_append]
          exact ih (fun id hmem => hc id (List.mem_cons_of_mem _ hmem)) w'

end Losses

/-! ## The count -/

/-- With nothing in hand it is time to ask for jobs, whatever the limit. -/
theorem Workload.wantsMore_of_inHand_eq_zero {load : Workload} (hlimit : 0 < load.maxJobs)
    (h : load.inHand = 0) : load.wantsMore = true := by
  unfold wantsMore refillLevel
  rw [decide_eq_true_eq, h]
  omega

/-- Nothing awaits a milestone where no job is held and every handling is past it. -/
theorem Ledger.awaiting_eq_nil {m : Milestone} {L : Ledger} (hheld : L.held = none)
    (hs : ∀ h ∈ L.handlings, h.phase.isPast m = true) : L.awaiting m = [] := by
  have hnone : L.handlings.filter (fun h => !h.phase.isPast m) = [] := by
    rw [List.filter_eq_nil_iff]
    intro h hmem
    rw [hs h hmem]
    decide
  rw [awaiting, hheld, Handling.awaiting, hnone]
  rfl

/-- The step of a handling that is over is always possible, and counts its job down. -/
theorem Worker.handle_settling {id : Nat} {h : Handling} (hh : w.handling? id = some h)
    (hp : h.phase = .settling) : w.perform (.handle id) =
      some ({ w with queue := w.queue.discount }.setHandling { h with phase := .counted }) := by
  show w.handle id = _
  rw [handle, hh]
  show (h.step w.config w.kind w.queue).bind _ = _
  simp only [Handling.step, hp]
  rfl

/-- As long as the books balance, a job is counted down by one and never at zero. -/
theorem Worker.handle_settling_inHand {log : List Event} {id : Nat} {h : Handling}
    (hw : w.ledger.Balanced log) (hh : w.handling? id = some h) (hp : h.phase = .settling) :
    ∃ w', w.perform (.handle id) = some w' ∧ w'.inHand + 1 = w.inHand := by
  refine ⟨_, handle_settling hh hp, ?_⟩
  obtain ⟨-, front, back, hsplit, -, -⟩ := handling?_split hw.numbered.distinct hh
  have hpos : 0 < w.inHand := hw.inHand_pos hsplit (by rw [hp]; rfl)
  show w.inHand - 1 + 1 = w.inHand
  omega

open History in
/-- **The count of jobs in hand is exact** after every run without a collapse: it counts the jobs in the queue,
the one that is half-way into it, and those that were taken and whose handling is not over. Each job that was
taken passes each milestone once, or has yet to. Whenever a job is counted down, the count goes down by one.
Only jobs that convert are ever counted. With nothing queued and nothing to handle the count is zero, and the
worker asks for more. -/
theorem Worker.run_inHand_exact (h : run actions (start config kind now) = some w)
    (hc : ∀ id, .collapse id ∉ actions) :
    let log := history actions (start config kind now)
    (w.inHand = w.queue.jobs.length + w.poller.entering.toList.length +
      (w.ledger.awaiting .discounted).length) ∧
    (∀ m, (passings m log ++ w.ledger.awaiting m).Perm (taken log).zipIdx) ∧
    (∀ id hd, w.handling? id = some hd → hd.phase = .settling →
      ∃ w', w.perform (.handle id) = some w' ∧ w'.inHand + 1 = w.inHand) ∧
    counted log ++ w.poller.due = Job.ofBatch (received log) ∧
    w.inHand + (passings .discounted log).length = (counted log).length ∧
    (w.queue.jobs = [] → w.poller.entering = none → w.dispatcher.held = none →
      (∀ hd ∈ w.handlings, hd.phase.isPast .discounted = true) →
      w.inHand = 0 ∧ w.queue.load.wantsMore = true) := by
  intro log
  have hw := run_balanced h
  have hexact : w.inHand = w.queue.jobs.length + w.poller.entering.toList.length +
      (w.ledger.awaiting .discounted).length := by
    have hinHand : w.inHand = w.poller.entering.toList.length + w.queue.jobs.length +
        (w.ledger.awaiting .discounted).length + (losses .discounted log).length := hw.inHand_eq
    rw [losses_history _ hc] at hinHand
    simp only [List.length_nil] at hinHand
    omega
  refine ⟨hexact, fun m => ?_, fun id hd => handle_settling_inHand hw, hw.received.symm, hw.inHand, ?_⟩
  · have honce := hw.once m
    rwa [losses_history _ hc, List.append_nil] at honce
  · intro hqueue hentering hheld hover
    have hnone : w.ledger.awaiting .discounted = [] := Ledger.awaiting_eq_nil hheld hover
    have hzero : w.inHand = 0 := by
      rw [hexact, hqueue, hentering, hnone]
      rfl
    have hlimit : 0 < w.queue.load.maxJobs := by
      rw [run_limit h]
      omega
    exact ⟨hzero, Workload.wantsMore_of_inHand_eq_zero hlimit hzero⟩

/-- A run in which a batch comes with a job that does not convert between two that do; the handler of the
first job breaks down, the report on it is answered, and the second job stays in the queue under a token that
fires. -/
def Worker.breakdownRun : List Action :=
  [.poll true true, .poll true true, .poll true true, .gateway .opened,
    .gateway (.response [{ key := 1 }, { key := 2, deadline := 9000000000000000 }, { key := 3 }]),
    .poll true true, .poll true true, .poll true true, .poll true true, .poll true true, .poll true true,
    .poll true true, .gateway .ended, .dispatch true, .dispatch true, .dispatch true, .dispatch true,
    .dispatch true, .handle 0, .handle 0, .finish 0 (.error .panicked), .handle 0, .answer 0, .handle 0,
    .handle 0, .retire 0, .cancel]

/-- After a breakdown inside the handler one job is in hand, the one that is queued. -/
theorem Worker.inHand_exact_after_breakdown :
    ∃ w, run breakdownRun (start { jobType := "foo", workerName := "worker" } .async 0) = some w ∧
      (∀ id, .collapse id ∉ breakdownRun) ∧
      w.inHand = w.queue.jobs.length + w.poller.entering.toList.length +
        (w.ledger.awaiting .discounted).length ∧
      w.queue.jobs.map (·.key) = [3] ∧ w.inHand = 1 := by
  obtain ⟨w, hrun⟩ : ∃ w, run breakdownRun
      (start { jobType := "foo", workerName := "worker" } .async 0) = some w := ⟨_, rfl⟩
  have hc : ∀ id, .collapse id ∉ breakdownRun := by simp [breakdownRun]
  refine ⟨w, hrun, hc, (run_inHand_exact hrun hc).1, ?_⟩
  cases hrun
  exact ⟨rfl, rfl⟩

end JobWorker
