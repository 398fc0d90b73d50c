import JobWorker.Proofs.Ledger.Simulation

/-!
# `JobWorker.Proofs.Ledger.Balance` — the books of a worker balance

Every job that was received and converts is at one place, and every job that was taken out of the queue
passes each milestone once. `Ledger.Balanced` says so of a ledger and the events that led to it; each kind
of step keeps it, and so does each run. The count of jobs in hand is then no more than an abbreviation: it
can be computed from the places (`Ledger.Balanced.inHand_eq`), and it is never lowered at zero.

## Contents
- **Balance.** `Ledger.Balanced`, `Ledger.Balanced.inHand_eq`.
- **Steps and runs.** `Ledger.Step.balanced`, `Worker.run_balanced`.
-/

namespace JobWorker

/-- The jobs of two batches are the jobs of the one and of the other. -/
theorem Job.ofBatch_append (b b' : Batch) : Job.ofBatch (b ++ b') = Job.ofBatch b ++ Job.ofBatch b' :=
  List.filterMap_append

namespace Ledger

/-! ## Balance -/

/-- What the events so far and the places of jobs have to do with each other. -/
structure Balanced (log : List Event) (L : Ledger) : Prop where
  numbered : L.Numbered
  received : Job.ofBatch (History.received log) = History.counted log ++ L.due
  counted : History.counted log = History.taken log ++ L.queue ++ L.entering.toList
  launched : L.launched + L.held.toList.length = (History.taken log).length
  once : ∀ m, (History.passings m log ++ L.awaiting m ++ History.losses m log).Perm
    (History.taken log).zipIdx
  inHand : L.inHand + (History.passings .discounted log).length = (History.counted log).length

namespace Balanced

variable {log : List Event} {L : Ledger}

/-- Each job that was taken is past a milestone, awaits it, or is lost. -/
theorem length_taken (hL : L.Balanced log) (m : Milestone) :
    (History.taken log).length =
      (History.passings m log).length + (L.awaiting m).length + (History.losses m log).length := by
  rw [← List.length_zipIdx, ← (hL.once m).length_eq, List.length_append, List.length_append]

/-- The count of jobs in hand: those that enter, those that wait in the queue, those whose handling is not
over, and those that were lost. -/
theorem inHand_eq (hL : L.Balanced log) :
    L.inHand = L.entering.toList.length + L.queue.length + (L.awaiting .discounted).length +
      (History.losses .discounted log).length := by
  have htaken := hL.length_taken .discounted
  have hinHand := hL.inHand
  rw [hL.counted, List.length_append, List.length_append] at hinHand
  omega

/-- No handling is past a milestone and before it or lost. -/
theorem nodup_once (hL : L.Balanced log) (m : Milestone) :
    ((History.passings m log ++ L.awaiting m ++ History.losses m log).map (·.2)).Nodup := by
  rw [((hL.once m).map (·.2)).nodup_iff, List.zipIdx_map_snd]
  exact List.nodup_range'

/-- What was counted down was judged before. -/
theorem passed_judged (hL : L.Balanced log) {x : Job × Nat} (hx : x ∈ History.passings .discounted log) :
    x ∈ History.passings .judged log := by
  have hnodup := hL.nodup_once .discounted
  rw [List.append_assoc, List.map_append, List.nodup_append] at hnodup
  have hnot : x ∉ L.awaiting .discounted ++ History.losses .discounted log := fun hmem =>
    hnodup.2.2 x.2 (List.mem_map_of_mem hx) x.2 (List.mem_map_of_mem hmem) rfl
  have htaken : x ∈ (History.taken log).zipIdx :=
    (hL.once .discounted).subset (List.mem_append_left _ (List.mem_append_left _ hx))
  rcases List.mem_append.mp ((hL.once .judged).symm.subset htaken) with hmem | hlost
  · rcases List.mem_append.mp hmem with hpassed | hawaiting
    · exact hpassed
    · exact absurd (List.mem_append_left _ (L.awaiting_judged_subset hawaiting)) hnot
  · exact absurd (List.mem_append_right _ hlost) hnot

end Balanced

/-! ## Steps -/

section Steps

variable {config : WorkerConfig} {L L' : Ledger} {log log' : List Event}

/-- On the way to the count no job is lost, and none that does not convert is counted. -/
theorem Step.received_eq (step : Step config L log' L')
    (h : Job.ofBatch (History.received log) = History.counted log ++ L.due) :
    Job.ofBatch (History.received (log ++ log')) = History.counted (log ++ log') ++ L'.due := by
  rw [History.received_append, Job.ofBatch_append, History.counted_append, h]
  cases step with
  | receive _ hdue => simp [History.received, History.counted, hdue]
  | count hdue _ => simp [History.received, History.counted, Job.ofBatch, hdue]
  | _ => simp [History.received, History.counted, Job.ofBatch]

/-- Between the count and the dispatcher jobs keep their order. -/
theorem Step.counted_eq (step : Step config L log' L')
    (h : History.counted log = History.taken log ++ L.queue ++ L.entering.toList) :
    History.counted (log ++ log') = History.taken (log ++ log') ++ L'.queue ++ L'.entering.toList := by
  rw [History.counted_append, History.taken_append, h]
  cases step with
  | count _ hentering => simp [History.counted, History.taken, hentering]
  | store hentering => simp [History.counted, History.taken, hentering]
  | take hqueue _ => simp [History.counted, History.taken, hqueue]
  | _ => simp [History.counted, History.taken]

/-- The number of a handling is the place of its job among those that were taken. -/
theorem Step.launched_eq (step : Step config L log' L')
    (h : L.launched + L.held.toList.length = (History.taken log).length) :
    L'.launched + L'.held.toList.length = (History.taken (log ++ log')).length := by
  rw [History.taken_append, List.length_append, ← h]
  cases step with
  | take _ hheld => simp [History.taken, hheld]
  | launch hheld => simp [History.taken, hheld]
  | _ => simp [History.taken]

/-! ### Milestones: a handling moves from those that await one to those that are past it, or is lost -/

section Moves

variable {passed front back lost all : List (Job × Nat)} {x : Job × Nat}

theorem perm_take {taken : List Job} (job : Job) {n : Nat} (hn : n = taken.length)
    (h : (passed ++ front ++ lost).Perm taken.zipIdx) :
    (passed ++ (front ++ [(job, n)]) ++ lost).Perm (taken ++ [job]).zipIdx := by
  rw [List.zipIdx_append, List.zipIdx_singleton, Nat.zero_add, ← hn]
  have hmove : (passed ++ (front ++ [(job, n)]) ++ lost).Perm (passed ++ front ++ lost ++ [(job, n)]) := by
    rw [← List.append_assoc passed, List.append_assoc _ _ lost, List.append_assoc _ lost]
    exact List.perm_append_comm.append_left _
  exact hmove.trans (h.append_right _)

/-- One that awaits can stand in front of all others. -/
theorem perm_awaiting : (passed ++ (front ++ x :: back) ++ lost).Perm
    (x :: (passed ++ (front ++ back) ++ lost)) := by
  have hassoc : passed ++ (front ++ x :: back) ++ lost = (passed ++ front) ++ x :: (back ++ lost) := by
    simp only [List.append_assoc, List.cons_append]
  have hassoc' : passed ++ (front ++ back) ++ lost = (passed ++ front) ++ (back ++ lost) := by
    simp only [List.append_assoc]
  rw [hassoc, hassoc']
  exact List.perm_middle

theorem perm_pass (h : (passed ++ (front ++ x :: back) ++ lost).Perm all) :
    (passed ++ [x] ++ (front ++ back) ++ lost).Perm all := by
  refine List.Perm.trans ?_ (perm_awaiting.symm.trans h)
  simp only [List.append_assoc, List.cons_append]
  exact List.perm_middle

theorem perm_lose (h : (passed ++ (front ++ x :: back) ++ lost).Perm all) :
    (passed ++ (front ++ back) ++ (lost ++ [x])).Perm all := by
  refine List.Perm.trans ?_ (perm_awaiting.symm.trans h)
  rw [← List.append_assoc _ lost]
  exact List.perm_append_singleton _ _

end Moves

/-- Each job that was taken is past a milestone, awaits it or is lost, and only one of these. -/
theorem Step.once (step : Step config L log' L') (m : Milestone)
    (hlaunched : L.launched + L.held.toList.length = (History.taken log).length)
    (h : (History.passings m log ++ L.awaiting m ++ History.losses m log).Perm (History.taken log).zipIdx) :
    (History.passings m (log ++ log') ++ L'.awaiting m ++ History.losses m (log ++ log')).Perm
      (History.taken (log ++ log')).zipIdx := by
  rw [History.passings_append, History.losses_append, History.taken_append]
  cases step with
  | @take job jobs hqueue hheld =>
      -- a job that is held will have the next number
      have hnumber : L.launched = (History.taken log).length := by simpa [hheld] using hlaunched
      have hawaiting : L.awaiting m = Handling.awaiting m L.handlings := by simp [awaiting, hheld]
      have h := perm_take job hnumber (hawaiting ▸ h)
      simpa [History.passings, History.losses, History.taken, awaiting] using h
  | @launch job hheld =>
      -- a new handling awaits what its job awaited
      have hnew : Handling.awaiting m [{ id := L.launched, job : Handling }] = [(job, L.launched)] := by
        cases m <;> rfl
      simpa [History.passings, History.losses, History.taken, awaiting, hheld, hnew] using h
  | @use front h₀ back hh hp =>
      cases hm : h₀.phase.isPast m <;>
        simpa [History.passings, History.losses, History.taken, awaiting, hh, hm] using h
  | @advance front h₀ h₁ back hh next =>
      by_cases hm : h₀.phase.isPast m = true
      · -- the milestone lies behind it already
        have hm' := next.isPast_of_isPast hm
        simpa [History.passings, History.losses, History.taken, awaiting, hh, hm, hm'] using h
      · simp only [Bool.not_eq_true] at hm
        cases hm' : h₁.phase.isPast m with
        | false =>
            simpa [History.passings, History.losses, History.taken, awaiting, hh, hm, hm', next.id_eq,
              next.job_eq] using h
        | true =>
            have h : (History.passings m log ++ (Handling.awaiting m front ++ (h₀.job, h₀.id) ::
                (Handling.awaiting m back ++ L.held.toList.map fun job => (job, L.launched))) ++
                History.losses m log).Perm (History.taken log).zipIdx := by
              simpa [awaiting, hh, hm] using h
            simpa [History.passings, History.losses, History.taken, awaiting, hm, hm'] using perm_pass h
  | @retire front h₀ back hh hp =>
      -- every milestone lies behind a handling that goes
      have hm : h₀.phase.isPast m = true := by rw [hp]; cases m <;> rfl
      simpa [History.passings, History.losses, History.taken, awaiting, hh, hm] using h
  | @collapse front h₀ back hh hp =>
      cases hm : h₀.phase.isPast m with
      | true =>
          have hm' : HandlingPhase.calling.isPast m = true := hp ▸ hm
          simpa [History.passings, History.losses, History.taken, awaiting, hh, hm, hm'] using h
      | false =>
          have hm' : HandlingPhase.calling.isPast m = false := hp ▸ hm
          have h : (History.passings m log ++ (Handling.awaiting m front ++ (h₀.job, h₀.id) ::
              (Handling.awaiting m back ++ L.held.toList.map fun job => (job, L.launched))) ++
              History.losses m log).Perm (History.taken log).zipIdx := by
            simpa [awaiting, hh, hm] using h
          simpa [History.passings, History.losses, History.taken, awaiting, hm'] using perm_lose h
  | _ => simpa [History.passings, History.losses, History.taken, awaiting] using h

/-- A handling that has yet to be counted down is among the jobs in hand. -/
theorem Balanced.inHand_pos (hL : L.Balanced log) {front back : List Handling} {h : Handling}
    (hh : L.handlings = front ++ h :: back) (hp : h.phase.isPast .discounted = false) : 0 < L.inHand := by
  have hmem : (h.job, h.id) ∈ L.awaiting .discounted := by
    simp [awaiting, hh, hp]
  have hlength := List.length_pos_of_mem hmem
  have hinHand := hL.inHand_eq
  omega

/-- The count of jobs in hand goes up with each job that is counted and down with each whose handling is
over; it is never lowered at zero, where it would stay. -/
theorem Step.inHand_eq (step : Step config L log' L') (hL : L.Balanced log) :
    L'.inHand + (History.passings .discounted (log ++ log')).length =
      (History.counted (log ++ log')).length := by
  have inHand := hL.inHand
  rw [History.passings_append, History.counted_append, List.length_append, List.length_append]
  cases step with
  | @count job jobs hdue hentering =>
      show L.inHand + 1 + (_ + 0) = _ + 1
      omega
  | @advance front h₀ h₁ back hh next =>
      by_cases hm : h₀.phase.isPast .discounted = true
      · have hm' := next.isPast_of_isPast hm
        simpa [History.passings, History.counted, hm, hm'] using inHand
      · simp only [Bool.not_eq_true] at hm
        cases hm' : h₁.phase.isPast .discounted with
        | false => simpa [History.passings, History.counted, hm, hm'] using inHand
        | true =>
            have hpos := hL.inHand_pos hh hm
            have hpassed : History.passings .discounted [.advanced h₀.id h₀.job h₀.phase h₁.phase] =
                [(h₀.job, h₀.id)] := by simp [History.passings, hm, hm']
            rw [hpassed]
            simp only [hm, Bool.not_false, Bool.and_self, if_true]
            show L.inHand - 1 + (_ + 1) = _ + 0
            omega
  | _ => simpa [History.passings, History.counted] using inHand

/-! ## Steps and runs -/

/-- **Every step keeps the balance.** -/
theorem Step.balanced (hL : L.Balanced log) (step : Step config L log' L') :
    L'.Balanced (log ++ log') where
  numbered := step.numbered hL.numbered
  received := step.received_eq hL.received
  counted := step.counted_eq hL.counted
  launched := step.launched_eq hL.launched
  once m := step.once m hL.launched (hL.once m)
  inHand := step.inHand_eq hL

end Steps

end Ledger

namespace Worker

variable {config : WorkerConfig} {kind : HandlerKind} {now : Time}

/-- The books of a worker that has just been opened are empty. -/
theorem start_balanced : (start config kind now).ledger.Balanced [] where
  numbered := ⟨List.nodup_nil, fun _ hmem => nomatch hmem⟩
  received := rfl
  counted := rfl
  launched := rfl
  once _ := .nil
  inHand := rfl

/-- **The books of a worker balance** after every run from its opening on. -/
theorem run_balanced {actions : List Action} {w : Worker}
    (h : run actions (start config kind now) = some w) :
    w.ledger.Balanced (history actions (start config kind now)) := by
  have run := run_ledger start_balanced.numbered h
  exact run.preserves (fun hL step => step.balanced hL) start_balanced

end Worker
end JobWorker
