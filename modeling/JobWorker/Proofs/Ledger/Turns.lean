import JobWorker.Proofs.Ledger.Balance
import JobWorker.Proofs.Ledger.Reports

/-!
# `JobWorker.Proofs.Ledger.Turns` — jobs in order, handlings in turn

Jobs leave the queue in the order in which they came in, whatever else happens. What comes after that can get
out of order, because handlings go on side by side; but where there is only one of them at a time, each begins
after all others have made their last step. Then everything that handlings do is in the order of the jobs, which
is the order of their numbers.

## Contents
- **Views.** `History.queued`, `Event.mover?`, `History.movers`.
- **The queue.** `Ledger.Step.queued_eq`.
- **Turns.** `Ledger.InTurn`, kept by `Ledger.Step.inTurn` where there is one handling at most.
- **What is in order.** `Ledger.InTurn.pairwise_of_sublist`, `Ledger.InTurn.passings_eq`.
-/

namespace JobWorker

/-! ## Views -/

/-- The number of the handling that goes on or collapses by an event, if one does. -/
def Event.mover? : Event → Option Nat
  | .advanced id _ _ _ | .collapsed id _ => some id
  | _                                    => none

namespace History

variable (m : Milestone) (log log' : List Event)

/-- The jobs that were put into the queue, in order. -/
def queued : List Job :=
  log.filterMap fun
    | .queued job => some job
    | _           => none

/-- The handlings that went on or collapsed, step by step. -/
def movers : List Nat := log.filterMap Event.mover?

@[simp] theorem queued_append : queued (log ++ log') = queued log ++ queued log' := List.filterMap_append

@[simp] theorem movers_append : movers (log ++ log') = movers log ++ movers log' := List.filterMap_append

variable {log}

/-- Whatever is numbered by the handlings that do it is in the order of their steps. -/
theorem sublist_movers {f : Event → Option Nat} (h : ∀ event id, f event = some id → event.mover? = some id) :
    (log.filterMap f).Sublist (movers log) := by
  induction log with
  | nil => exact .slnil
  | cons event log ih =>
      unfold movers at ih ⊢
      rw [List.filterMap_cons, List.filterMap_cons]
      cases hf : f event with
      | some id =>
          rw [h event id hf]
          exact ih.cons_cons id
      | none =>
          cases event.mover? with
          | some id => exact ih.cons id
          | none    => exact ih

theorem passings_sublist_movers : ((passings m log).map (·.2)).Sublist (movers log) := by
  rw [passings, List.map_filterMap]
  refine sublist_movers fun event id hsome => ?_
  obtain ⟨x, hx, rfl⟩ := Option.map_eq_some_iff.mp hsome
  cases event with
  | advanced i job before after =>
      simp only [Option.ite_none_right_eq_some, Option.some.injEq] at hx
      rw [← hx.2]
      rfl
  | _ => cases hx

theorem attempts_sublist_movers : ((attempts log).map (·.1)).Sublist (movers log) := by
  rw [attempts, List.map_filterMap]
  refine sublist_movers fun event id hsome => ?_
  obtain ⟨x, hx, rfl⟩ := Option.map_eq_some_iff.mp hsome
  cases event with
  | advanced i job before after => cases after <;> cases hx; rfl
  | _ => cases hx

theorem answers_sublist_movers : ((answers log).map (·.1)).Sublist (movers log) := by
  rw [answers, List.map_filterMap]
  refine sublist_movers fun event id hsome => ?_
  obtain ⟨x, hx, rfl⟩ := Option.map_eq_some_iff.mp hsome
  cases event with
  | advanced i job before after => cases before <;> cases hx; rfl
  | _ => cases hx

end History

namespace Ledger

variable {config : WorkerConfig} {L L' : Ledger} {log log' : List Event}

/-! ## The queue -/

/-- Jobs leave the queue in the order in which they came in. -/
theorem Step.queued_eq (step : Step config L log' L')
    (h : History.queued log = History.taken log ++ L.queue) :
    History.queued (log ++ log') = History.taken (log ++ log') ++ L'.queue := by
  rw [History.queued_append, History.taken_append, h]
  cases step with
  | store hentering => simp [History.queued, History.taken]
  | take hqueue _ => simp [History.queued, History.taken, hqueue]
  | _ => simp [History.queued, History.taken]

/-! ## Turns -/

/-- Handlings take turns: none goes on once a later one has. `ids` are the handlings that went on, step by step. -/
structure InTurn (ids : List Nat) (L : Ledger) : Prop where
  sorted : ids.Pairwise (· ≤ ·)
  begun : ∀ id ∈ ids, id < L.launched
  latest : ∀ h ∈ L.handlings, ∀ id ∈ ids, id ≤ h.id

variable {ids : List Nat} {front back : List Handling} {h : Handling}

/-- A ledger with one handling at most has no other. -/
theorem eq_nil_of_alone (halone : L.handlings.length ≤ 1) (hh : L.handlings = front ++ h :: back) :
    front = [] ∧ back = [] := by
  rw [hh, List.length_append, List.length_cons] at halone
  have hfront : front.length = 0 := by omega
  have hback : back.length = 0 := by omega
  exact ⟨List.length_eq_zero_iff.mp hfront, List.length_eq_zero_iff.mp hback⟩

/-- The latest handling may go on. -/
theorem InTurn.sorted_append (hL : L.InTurn ids) (hmem : h ∈ L.handlings) :
    (ids ++ [h.id]).Pairwise (· ≤ ·) := by
  rw [List.pairwise_append]
  refine ⟨hL.sorted, List.pairwise_singleton _ _, fun id hid other hother => ?_⟩
  rw [List.mem_singleton.mp hother]
  exact hL.latest h hmem id hid

theorem InTurn.begun_append (hL : L.InTurn ids) (hn : L.Numbered) (hmem : h ∈ L.handlings) :
    ∀ id ∈ ids ++ [h.id], id < L.launched := by
  intro id hid
  rcases List.mem_append.mp hid with hold | hnew
  · exact hL.begun id hold
  · rw [List.mem_singleton.mp hnew]
    exact hn.below h hmem

/-- With one handling at a time, **each makes its last step before the next one begins.** -/
theorem Step.inTurn (step : Step config L log' L') (hn : L.Numbered) (halone : L.handlings.length ≤ 1)
    (hL : L.InTurn ids) : L'.InTurn (ids ++ History.movers log') := by
  cases step with
  | quiet | ask | hangUp | receive | count | store | take =>
      show InTurn (ids ++ []) _
      rw [List.append_nil]
      exact ⟨hL.sorted, hL.begun, hL.latest⟩
  | @launch job hheld =>
      show InTurn (ids ++ []) _
      rw [List.append_nil]
      refine ⟨hL.sorted, fun id hid => Nat.lt_succ_of_lt (hL.begun id hid), fun h hmem id hid => ?_⟩
      rcases List.mem_append.mp hmem with hold | hnew
      · exact hL.latest h hold id hid
      · -- a new handling has the next number
        rw [List.mem_singleton.mp hnew]
        exact Nat.le_of_lt (hL.begun id hid)
  | @use front h back hh _ =>
      show InTurn (ids ++ []) _
      rw [List.append_nil]
      refine ⟨hL.sorted, hL.begun, fun other hmem id hid => ?_⟩
      have hlatest := hL.latest h (by simp [hh]) id hid
      rcases mem_of_mem_replace hmem with rfl | hold
      · exact hlatest
      · exact hL.latest other (mem_of_mem_others hh hold) id hid
  | @advance front h h' back hh next =>
      show InTurn (ids ++ [h.id]) _
      obtain ⟨rfl, rfl⟩ := eq_nil_of_alone halone hh
      have hmem : h ∈ L.handlings := by simp [hh]
      refine ⟨hL.sorted_append hmem, hL.begun_append hn hmem, fun other hother id hid => ?_⟩
      rw [List.mem_singleton.mp hother, next.id_eq]
      rcases List.mem_append.mp hid with hold | hnew
      · exact hL.latest h hmem id hold
      · exact Nat.le_of_eq (List.mem_singleton.mp hnew)
  | retire hh _ =>
      show InTurn (ids ++ []) _
      rw [List.append_nil]
      exact ⟨hL.sorted, hL.begun, fun other hmem => hL.latest other (mem_of_mem_others hh hmem)⟩
  | @collapse front h back hh _ =>
      show InTurn (ids ++ [h.id]) _
      obtain ⟨rfl, rfl⟩ := eq_nil_of_alone halone hh
      have hmem : h ∈ L.handlings := by simp [hh]
      exact ⟨hL.sorted_append hmem, hL.begun_append hn hmem, fun _ hother => nomatch hother⟩

/-! ## What is in order -/

/-- The numbers of jobs in order. -/
theorem pairwise_zipIdx (jobs : List Job) : jobs.zipIdx.Pairwise (·.2 ≤ ·.2) := by
  have hlt : (jobs.zipIdx.map (·.2)).Pairwise (· < ·) := by
    rw [List.zipIdx_map_snd]
    exact List.pairwise_lt_range'
  exact (List.pairwise_map.mp hlt).imp Nat.le_of_lt

/-- Where handlings take turns, those that are past a milestone come before those that await it. -/
theorem InTurn.pairwise (hL : L.InTurn (History.movers log)) (m : Milestone)
    (halone : L.handlings.length + L.held.toList.length ≤ 1) :
    (History.passings m log ++ L.awaiting m).Pairwise (·.2 ≤ ·.2) := by
  have hpassed : ((History.passings m log).map (·.2)).Pairwise (· ≤ ·) :=
    hL.sorted.sublist (History.passings_sublist_movers m)
  have hlength := Nat.le_trans (L.length_awaiting_le m) halone
  rw [List.pairwise_append]
  refine ⟨List.pairwise_map.mp hpassed, ?_, fun x hx y hy => ?_⟩
  · cases hawaiting : L.awaiting m with
    | nil => exact .nil
    | cons x rest =>
        rw [hawaiting, List.length_cons] at hlength
        have hrest : rest = [] := List.length_eq_zero_iff.mp (by omega)
        rw [hrest]
        exact List.pairwise_singleton _ _
  · have hx : x.2 ∈ History.movers log :=
      (History.passings_sublist_movers m).subset (List.mem_map_of_mem hx)
    rcases List.mem_append.mp hy with hhandled | hheld
    · obtain ⟨h, hmem, rfl⟩ := List.mem_map.mp hhandled
      exact hL.latest h (List.mem_filter.mp hmem).1 x.2 hx
    · -- a job that is held will have the next number
      obtain ⟨job, -, rfl⟩ := List.mem_map.mp hheld
      exact Nat.le_of_lt (hL.begun x.2 hx)

/-- So they pass each milestone in the order in which their jobs were taken, if none was lost before it. -/
theorem InTurn.passings_eq (hL : L.InTurn (History.movers log)) (hbalanced : L.Balanced log) {m : Milestone}
    (halone : L.handlings.length + L.held.toList.length ≤ 1) (hlosses : History.losses m log = []) :
    History.passings m log ++ L.awaiting m = (History.taken log).zipIdx := by
  have honce := hbalanced.once m
  rw [hlosses, List.append_nil] at honce
  refine honce.eq_of_pairwise (fun x y hx hy hle hge => ?_) (hL.pairwise m halone) (pairwise_zipIdx _)
  -- a number is the place of one job
  have hsame : x.2 = y.2 := Nat.le_antisymm hle hge
  have hx' := List.mem_zipIdx_iff_getElem?.mp (honce.subset hx)
  have hy' := List.mem_zipIdx_iff_getElem?.mp hy
  rw [hsame, hy', Option.some.injEq] at hx'
  exact Prod.ext hx'.symm hsame

end Ledger

end JobWorker
