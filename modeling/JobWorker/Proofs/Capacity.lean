import JobWorker.Proofs.Occupancy

/-!
# `JobWorker.Proofs.Capacity` — a worker never has more jobs than it wants

How many jobs a call asks for is settled when it begins, from the count of jobs in hand at that time; while
responses come in, jobs are put into the queue and handlings end in any order. What makes this safe is
**credit**: what the open call may still bring is room that was free when the call began, and nothing but the
call itself uses room up. So the jobs in hand, those that came and are due, and the credit fit under the limit
together, provided that the gateway sends no more than it was asked for.

## Contents
- **Credit.** `History.creditAfter`, `History.WithinRequests`.
- **The invariant.** `Ledger.Covered`, kept by `Ledger.Step.covered` and `Ledger.Run.covered`.
- **The bound.** `Worker.run_within_limit`.
-/

namespace JobWorker

/-! ## Credit -/

namespace History

/-- What the open call may still bring after these events, if it was `credit` before them. -/
def creditAfter : Nat → List Event → Nat
  | credit, []                     => credit
  | _, .asked request :: log       => creditAfter request.maxJobs.toNat log
  | credit, .received batch :: log => creditAfter (credit - batch.length) log
  | credit, _ :: log               => creditAfter credit log

/-- No call brings more jobs than it asked for, over however many responses; `credit` is what the call that is
open at the beginning may still bring. -/
def WithinRequests : Nat → List Event → Prop
  | _, []                          => True
  | _, .asked request :: log       => WithinRequests request.maxJobs.toNat log
  | credit, .received batch :: log => batch.length ≤ credit ∧ WithinRequests (credit - batch.length) log
  | credit, _ :: log               => WithinRequests credit log

instance decidableWithinRequests : (credit : Nat) → (log : List Event) →
    Decidable (WithinRequests credit log)
  | _, []                          => isTrue trivial
  | _, .asked request :: log       => decidableWithinRequests request.maxJobs.toNat log
  | credit, .received batch :: log =>
    have := decidableWithinRequests (credit - batch.length) log
    inferInstanceAs (Decidable (_ ∧ _))
  | credit, .counted _ :: log | credit, .queued _ :: log | credit, .taken _ :: log
  | credit, .used _ _ :: log | credit, .advanced _ _ _ _ :: log | credit, .collapsed _ _ :: log =>
    decidableWithinRequests credit log

variable {credit : Nat} {log log' : List Event}

theorem creditAfter_append :
    creditAfter credit (log ++ log') = creditAfter (creditAfter credit log) log' := by
  induction log generalizing credit with
  | nil => rfl
  | cons event log ih => cases event <;> exact ih

theorem withinRequests_append :
    WithinRequests credit (log ++ log') ↔
      WithinRequests credit log ∧ WithinRequests (creditAfter credit log) log' := by
  induction log generalizing credit with
  | nil => exact ⟨fun h => ⟨trivial, h⟩, fun h => h.2⟩
  | cons event log ih =>
      cases event with
      | received batch =>
          show (_ ∧ WithinRequests _ (log ++ log')) ↔ (_ ∧ WithinRequests _ log) ∧ _
          rw [ih, and_assoc]
          rfl
      | _ => exact ih

end History

/-! ## The invariant -/

namespace Ledger

/-- The jobs in hand, those that are due, and the credit of the open call fit under the limit. -/
def Covered (credit : Nat) (L : Ledger) : Prop :=
  L.inHand + L.due.length + (if L.asked.isSome then credit else 0) ≤ L.limit

variable {config : WorkerConfig} {L L' : Ledger} {log : List Event} {credit : Nat}

theorem Covered.inHand_le (hL : L.Covered credit) : L.inHand + L.due.length ≤ L.limit := by
  unfold Covered at hL
  omega

/-- A batch makes no more jobs due than it has. -/
theorem length_ofBatch_le (batch : Batch) : (Job.ofBatch batch).length ≤ batch.length :=
  List.length_filterMap_le _ _

/-- **Every step keeps the cover,** as long as no response is longer than the credit. -/
theorem Step.covered (step : Step config L log L') (hL : L.Covered credit)
    (hlog : History.WithinRequests credit log) : L'.Covered (History.creditAfter credit log) := by
  have hinHand := hL.inHand_le
  unfold Covered at hL ⊢
  cases step with
  | @ask request hdue hroom =>
      -- the credit of the new call is the room that is free
      simp only [hdue, List.length_nil] at hinHand ⊢
      show L.inHand + 0 + request.maxJobs.toNat ≤ L.limit
      omega
  | hangUp hdue => exact hinHand
  | @receive n batch hasked hdue =>
      -- what the response brings is taken off the credit, whether or not it converts
      obtain ⟨hbatch, -⟩ := hlog
      have hjobs := length_ofBatch_le batch
      simp only [hasked, hdue, List.length_nil, Option.isSome_some, if_true] at hL ⊢
      show L.inHand + (Job.ofBatch batch).length + (credit - batch.length) ≤ L.limit
      omega
  | @count job jobs hdue hentering =>
      -- a job that was due is in hand instead
      rw [hdue, List.length_cons] at hL
      show L.inHand + 1 + jobs.length + (if L.asked.isSome then credit else 0) ≤ L.limit
      omega
  | @advance front h h' back hh next =>
      -- room can only become free
      have hdown : (if h'.phase.isPast .discounted && !h.phase.isPast .discounted then L.inHand - 1
          else L.inHand) ≤ L.inHand := by
        split <;> omega
      exact Nat.le_trans (Nat.add_le_add_right (Nat.add_le_add_right hdown _) _) hL
  | _ => exact hL

/-- So every run of a ledger keeps it. -/
theorem Run.covered (run : Run config L log L') (hL : L.Covered credit)
    (hlog : History.WithinRequests credit log) : L'.Covered (History.creditAfter credit log) := by
  induction run generalizing credit with
  | nil => exact hL
  | cons step _ ih =>
      obtain ⟨hfirst, hrest⟩ := History.withinRequests_append.mp hlog
      rw [History.creditAfter_append]
      exact ih (step.covered hL hfirst) hrest

end Ledger

/-! ## The bound -/

/-- A worker that has just been opened is covered: nothing is in hand and nothing was asked for. -/
theorem Worker.start_covered {config : WorkerConfig} {kind : HandlerKind} {now : Time} :
    (start config kind now).ledger.Covered 0 := by
  show 0 + 0 + 0 ≤ _
  exact Nat.zero_le _

open History in
/-- **A worker never has more jobs than it wants.** Against a gateway that brings no more jobs in a call than
the call asked for, the jobs that came and are due, the one that is half-way into the queue, the queue, and
those whose handling is not over are together no more than the limit the worker was opened with; in
particular the count of jobs in hand is not. This is so for every limit, also one larger than a request can
ask for, and however the handlings go. -/
theorem Worker.run_within_limit {config : WorkerConfig} {kind : HandlerKind} {now : Time}
    {actions : List Action} {w : Worker} (hlimit : 1 ≤ config.maxJobsActive)
    (h : run actions (start config kind now) = some w)
    (hgateway : WithinRequests 0 (history actions (start config kind now))) :
    w.poller.due.length + w.poller.entering.toList.length + w.queue.jobs.length +
      (w.ledger.awaiting .discounted).length ≤ config.maxJobsActive ∧
    w.inHand ≤ config.maxJobsActive := by
  have hw := run_balanced h
  have hcovered := (run_ledger start_balanced.numbered h).covered start_covered hgateway
  have hle := hcovered.inHand_le
  have hmax : w.ledger.limit = config.maxJobsActive := by
    show w.queue.load.maxJobs = _
    rw [run_limit h]
    omega
  have hinHand := hw.inHand_eq
  rw [hmax] at hle
  refine ⟨?_, Nat.le_trans (Nat.le_add_right _ _) hle⟩
  show w.ledger.due.length + w.ledger.entering.toList.length + w.ledger.queue.length + _ ≤ _
  omega

/-- Settings with a limit beyond what a request can ask for. -/
def WorkerConfig.large : WorkerConfig :=
  { jobType := "foo", workerName := "worker", maxJobsActive := 3000000000 }

/-- Two responses to one call: one job is being handled, one is queued, and two are due. -/
def Worker.streamingRun : List Action :=
  [.poll true true, .poll true true, .poll true true, .gateway .opened,
    .gateway (.response [{ key := 1 }, { key := 2 }]), .poll true true, .poll true true, .poll true true,
    .poll true true, .poll true true, .poll true true, .poll true true, .dispatch true, .dispatch true,
    .dispatch true, .dispatch true, .dispatch true, .handle 0, .handle 0,
    .gateway (.response [{ key := 3 }, { key := 4 }])]

/-- The request asks for as much as it can; the worker stays below its limit. -/
theorem Worker.within_limit_while_streaming :
    ∃ w, 1 ≤ WorkerConfig.large.maxJobsActive ∧ run streamingRun (start .large .async 0) = some w ∧
      History.WithinRequests 0 (history streamingRun (start .large .async 0)) ∧
      w.inHand ≤ WorkerConfig.large.maxJobsActive ∧
      w.poller.request.maxJobs = 2147483647 ∧ w.poller.due.length = 2 ∧ w.inHand = 2 := by
  obtain ⟨w, hrun⟩ : ∃ w, run streamingRun (start .large .async 0) = some w := ⟨_, rfl⟩
  have hlimit : 1 ≤ WorkerConfig.large.maxJobsActive := by decide
  have hgateway : History.WithinRequests 0 (history streamingRun (start .large .async 0)) := by decide
  refine ⟨w, hlimit, hrun, hgateway, (run_within_limit hlimit hrun hgateway).2, ?_⟩
  cases hrun
  exact ⟨rfl, rfl, rfl⟩

end JobWorker
