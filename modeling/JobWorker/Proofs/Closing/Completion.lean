import JobWorker.Proofs.Breakdown
import JobWorker.Proofs.Wakeup

/-!
# `JobWorker.Proofs.Closing.Completion` — a handling can always be brought to its end

A handling needs nobody but its own handler and the answer to its own report. So in whatever state a worker is,
loops ended or not, closed or not, each handling that is there can go on alone until it is gone, and its job has
then passed every milestone.

## Contents
- **What was passed.** `Ledger.Recorded`, kept by `Ledger.Step.recorded`.
- **Own actions.** `Action.IsOwn`, `HandlingPhase.stepsLeft`, `Worker.own_step`.
- **Completion.** `Worker.run_complete`.
-/

namespace JobWorker

open History

/-! ## What was passed -/

namespace Ledger

variable {config : WorkerConfig} {L L' : Ledger} {log log' : List Event}

/-- The milestones that the handlings are past, they passed in the history. -/
def Recorded (log : List Event) (L : Ledger) : Prop :=
  ∀ h ∈ L.handlings, ∀ m, h.phase.isPast m = true → (h.job, h.id) ∈ passings m log

/-- A handling that stays as it is has still passed what it passed. -/
theorem Recorded.keep (hL : L.Recorded log) (log' : List Event)
    (hsame : ∀ h' ∈ L'.handlings, (∀ m, h'.phase.isPast m = false) ∨
      ∃ h ∈ L.handlings, h.phase = h'.phase ∧ h.job = h'.job ∧ h.id = h'.id) :
    L'.Recorded (log ++ log') := by
  intro h' hmem' m hpast
  rcases hsame h' hmem' with hyoung | ⟨h, hmem, hphase, hjob, hid⟩
  · rw [hyoung m] at hpast
    cases hpast
  · rw [passings_append, ← hjob, ← hid]
    exact List.mem_append_left _ (hL h hmem m (hphase ▸ hpast))

/-- Each step records the milestones that are passed by it. -/
theorem Step.recorded (step : Step config L log' L') (hL : L.Recorded log) : L'.Recorded (log ++ log') := by
  cases step with
  | quiet | ask | hangUp | receive | count | store | take =>
      exact hL.keep _ fun h hmem => .inr ⟨h, hmem, rfl, rfl, rfl⟩
  | @launch job hheld =>
      refine hL.keep _ fun h hmem => ?_
      rcases List.mem_append.mp hmem with hold | hnew
      · exact .inr ⟨h, hold, rfl, rfl, rfl⟩
      · rw [List.mem_singleton.mp hnew]
        exact .inl fun m => by cases m <;> rfl
  | @use front h back hh hp =>
      refine hL.keep _ fun other hmem => ?_
      rcases mem_of_mem_replace hmem with rfl | hold
      · exact .inr ⟨h, by simp [hh], rfl, rfl, rfl⟩
      · exact .inr ⟨other, mem_of_mem_others hh hold, rfl, rfl, rfl⟩
  | @advance front h h' back hh next =>
      intro other hmem m hpast
      rw [passings_append]
      rcases mem_of_mem_replace hmem with rfl | hold
      · rw [next.id_eq, next.job_eq]
        by_cases hbefore : h.phase.isPast m = true
        · exact List.mem_append_left _ (hL h (by simp [hh]) m hbefore)
        · -- the milestone is passed by this very step
          refine List.mem_append_right _ ?_
          simp [passings, hpast, hbefore]
      · exact List.mem_append_left _ (hL other (mem_of_mem_others hh hold) m hpast)
  | retire hh _ | collapse hh _ =>
      exact hL.keep _ fun other hmem => .inr ⟨other, mem_of_mem_others hh hmem, rfl, rfl, rfl⟩

end Ledger

/-! ## Own actions -/

/-- An action of a handling alone: its own step, the return of its handler with a given result, the answer to its
report, or its end. -/
def Action.IsOwn (id : Nat) (result : HandlerResult) : Action → Prop
  | .handle i | .answer i | .retire i => i = id
  | .finish i r                       => i = id ∧ r = result
  | _                                 => False

/-- How many steps a handling in this phase is from its end, at most. -/
def HandlingPhase.stepsLeft : HandlingPhase → Nat
  | .starting    => 8
  | .calling     => 7
  | .running     => 6
  | .returned _  => 5
  | .reporting _ => 4
  | .settling    => 3
  | .counted     => 2
  | .releasing   => 1

namespace Worker

variable {config : WorkerConfig} {kind : HandlerKind} {now : Time} {actions : List Action}
variable {w w' : Worker} {id : Nat} {h : Handling} {log : List Event}

/-- What a run passes is recorded. -/
theorem run_recorded (h : run actions (start config kind now) = some w) :
    w.ledger.Recorded (history actions (start config kind now)) := by
  have opening : (start config kind now).ledger.Recorded [] := fun _ hmem => nomatch hmem
  have run := run_ledger start_balanced.numbered h
  exact run.preserves (fun hL step => step.recorded hL) opening

/-- A handling's own step brings it nearer to its end. -/
theorem own_handle {n : Nat} {result : HandlerResult} (h' : Handling) (q : JobQueue Party Job)
    (hh : w.handling? id = some h)
    (hstep : h.step w.config w.kind w.queue = some (q, h')) (hid : h'.id = h.id) (hjob : h'.job = h.job)
    (hless : h'.phase.stepsLeft < n) :
    ∃ action w' h'', action.IsOwn id result ∧ w.perform action = some w' ∧ w'.handling? id = some h'' ∧
      h''.job = h.job ∧ h''.phase.stepsLeft < n := by
  obtain ⟨w', hw', hh'⟩ := handle_goes h' q hh hstep hid
  exact ⟨.handle id, w', h', rfl, hw', hh', hjob, hless⟩

/-- **A handling before its end can go on by itself,** whatever result its handler comes back with. -/
theorem own_step (result : HandlerResult) (hh : w.handling? id = some h)
    (hp : h.phase.isPast .released = false) :
    ∃ action w' h', action.IsOwn id result ∧ w.perform action = some w' ∧ w'.handling? id = some h' ∧
      h'.job = h.job ∧ h'.phase.stepsLeft < h.phase.stepsLeft := by
  cases hphase : h.phase with
  | starting =>
      cases hkind : w.kind with
      | async =>
          exact own_handle { h with phase := .calling } w.queue hh (by simp only [Handling.step, hphase, hkind]) rfl
            rfl (Nat.lt_succ_self 7)
      | blocking =>
          exact own_handle { h with phase := .running } w.queue hh (by simp only [Handling.step, hphase, hkind]) rfl
            rfl (Nat.lt_add_of_pos_right (by decide : 0 < 2))
  | calling =>
      exact own_handle { h with phase := .running } w.queue hh (by simp only [Handling.step, hphase]) rfl rfl
        (Nat.lt_succ_self 6)
  | running =>
      exact ⟨.finish id result, _, _, ⟨rfl, rfl⟩, perform_finish result hh hphase,
        handling?_setHandling hh rfl, rfl, Nat.lt_succ_self 5⟩
  | returned result =>
      cases hreport : h.report? w.config result with
      | some request =>
          exact own_handle { h with phase := .reporting request } w.queue hh
            (by simp only [Handling.step, hphase, hreport]) rfl rfl (Nat.lt_succ_self 4)
      | none =>
          exact own_handle { h with phase := .settling } w.queue hh
            (by simp only [Handling.step, hphase, hreport]) rfl rfl (Nat.lt_add_of_pos_right (by decide : 0 < 2))
  | reporting request =>
      refine ⟨.answer id, w.setHandling { h with phase := .settling }, _, rfl, ?_,
        handling?_setHandling hh rfl, rfl, Nat.lt_succ_self 3⟩
      show (w.handling? id).bind _ = _
      rw [hh, Option.bind_some, Handling.answered, hphase]
      rfl
  | settling =>
      exact own_handle { h with phase := .counted } w.queue.discount hh (by simp only [Handling.step, hphase]) rfl rfl
        (Nat.lt_succ_self 2)
  | counted =>
      exact own_handle { h with phase := .releasing } w.queue.release hh (by simp only [Handling.step, hphase]) rfl rfl
        (Nat.lt_succ_self 1)
  | releasing =>
      rw [hphase] at hp
      cases hp

/-! ## Completion -/

/-- **Every handling can be brought to its end,** by its own actions alone, and its job has then passed the last
milestone. -/
theorem run_complete (result : HandlerResult) (hn : w.ledger.Numbered) (hrecorded : w.ledger.Recorded log)
    (hh : w.handling? id = some h) :
    ∃ actions w', (∀ action ∈ actions, action.IsOwn id result) ∧ run actions w = some w' ∧
      w'.handling? id = none ∧ (h.job, id) ∈ passings .released (log ++ history actions w) := by
  -- by induction on the steps left, of which each own step takes at least one
  induction hleft : h.phase.stepsLeft using Nat.strongRecOn generalizing w log h with
  | ind n ih =>
    cases hp : h.phase.isPast .released with
    | true =>
        have hphase : h.phase = .releasing := by
          cases hphase : h.phase <;> rw [hphase] at hp <;> first | rfl | cases hp
        have hretire : w.perform (.retire id) = some (w.dropHandling id) := by
          show w.retire id = _
          simp only [retire, hh, hphase, Option.bind_eq_bind, Option.bind_some]
        refine ⟨[.retire id], w.dropHandling id, ?_, ?_, handling?_dropHandling w id, ?_⟩
        · intro action hmem
          rw [List.mem_singleton.mp hmem]
          rfl
        · rw [run, hretire]
          rfl
        · rw [passings_append]
          have hpassed := hrecorded h (List.mem_of_find?_eq_some hh) .released hp
          rw [handling?_id hh] at hpassed
          exact List.mem_append_left _ hpassed
    | false =>
        obtain ⟨action, w₁, h₁, hown, hw₁, hh₁, hjob, hless⟩ := own_step result hh hp
        have step := perform_step hn hw₁
        obtain ⟨actions, w', hall, hrun, hgone, hpassed⟩ :=
          ih _ (hleft ▸ hless) (step.numbered hn) (step.recorded hrecorded) hh₁ rfl
        refine ⟨action :: actions, w', List.forall_mem_cons.mpr ⟨hown, hall⟩, ?_, hgone, ?_⟩
        · rw [run, hw₁]
          exact hrun
        · rw [history, hw₁, ← List.append_assoc, ← hjob]
          exact hpassed

end Worker

end JobWorker
