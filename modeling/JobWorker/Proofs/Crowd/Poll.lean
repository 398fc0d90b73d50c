import JobWorker.Queue.Crowd

/-!
# `JobWorker.Proofs.Crowd.Poll` — what one poll of a consumer does

Between two polls a consumer has just come, or waits, or has its result. One that begins a round looks at its token and
at the queue, and joins those who wait if there is no job: a wake-up that was stored only sends it round once more. One
that waits begins a round if it notices a wake-up, and leaves if it notices its token. `Consumer.Polled` lists these, one
line each.

## Contents
- **Rounds.** `Consumer.Round`, `Consumer.steps_round`.
- **Polls.** `Consumer.Settled`, `Consumer.Polled`, `Consumer.poll_cases`.
-/

namespace JobWorker

namespace Signal

variable {ι : Type} [DecidableEq ι]

/-- The signal after a waiter has joined those who wait, for good. -/
def join (w : ι) (s : Signal ι) : Signal ι := { s with stored := false, waiting := s.waiting ++ [w] }

/-- The signal after a waiter has noticed its wake-up. -/
def taken (w : ι) (s : Signal ι) : Signal ι := { s with woken := s.woken.erase w }

end Signal

namespace Consumer

variable {ι α : Type} [DecidableEq ι] {id : ι} {cancelled token : Bool} {q q' : JobQueue ι α} {c c' : Consumer α}

/-! ## Rounds -/

/-- What a round makes of the queue and of the consumer that begins it. -/
inductive Round (id : ι) (cancelled : Bool) (q : JobQueue ι α) : JobQueue ι α → Consumer α → Prop where
  | quit : cancelled = true → Round id cancelled q q (.returned none)
  | take {job js} : cancelled = false → q.jobs = job :: js →
      Round id cancelled q { q with jobs := js } (.returned (some job))
  | park : cancelled = false → q.jobs = [] → Round id cancelled q { q with available := q.available.join id } .parked

theorem steps_succ {n : Nat} (h : c.step id cancelled token q = some (q', c')) :
    c.steps id cancelled token (n + 1) q = c'.steps id cancelled token n q' := by
  rw [steps, h]

theorem steps_of_none (n : Nat) (h : c.step id cancelled token q = none) :
    c.steps id cancelled token n q = (q, c) := by
  cases n with
  | zero => rfl
  | succ n => rw [steps, h]

theorem step_looking_nil (hjobs : q.jobs = []) : looking.step id cancelled token q = some (q, .entering) := by
  simp only [step, JobQueue.pop?, hjobs]

theorem step_looking_cons {job : α} {js : List α} (hjobs : q.jobs = job :: js) :
    looking.step id cancelled token q = some ({ q with jobs := js }, .returned (some job)) := by
  simp only [step, JobQueue.pop?, hjobs]

/-- One that finds no job and no wake-up waits. -/
theorem steps_looking_of_unstored (n : Nat) (hjobs : q.jobs = []) (hstored : q.available.stored = false)
    (hid : id ∉ q.available.woken) :
    looking.steps id false token (n + 2) q = ({ q with available := q.available.join id }, .parked) := by
  have hjoin : q.available.join id = { q.available with waiting := q.available.waiting ++ [id] } := by
    rw [Signal.join, ← hstored]
  have henter : entering.step id false token q = some ({ q with available := q.available.join id }, .parked) := by
    rw [hjoin]
    simp [step, Signal.wait, hstored]
  have hpark : parked.step id false token { q with available := q.available.join id } = none := by
    simp [step, Signal.take?, Signal.join, hid]
  rw [steps_succ (step_looking_nil hjobs), steps_succ henter, steps_of_none n hpark]

/-- **One that begins a round comes to its end,** within six steps. -/
theorem steps_round (n : Nat) (hid : id ∉ q.available.woken) :
    ∃ q' c', checking.steps id cancelled token (n + 6) q = (q', c') ∧ Round id cancelled q q' c' := by
  cases cancelled with
  | true =>
      have hcheck : checking.step id true token q = some (q, .returned none) := rfl
      refine ⟨q, .returned none, ?_, .quit rfl⟩
      rw [steps_succ hcheck, steps_of_none _ rfl]
  | false =>
      have hcheck : ∀ q : JobQueue ι α, checking.step id false token q = some (q, .looking) := fun q => rfl
      rw [steps_succ (hcheck q)]
      cases hjobs : q.jobs with
      | cons job js =>
          refine ⟨{ q with jobs := js }, .returned (some job), ?_, .take rfl hjobs⟩
          rw [steps_succ (step_looking_cons hjobs), steps_of_none _ rfl]
      | nil =>
          refine ⟨{ q with available := q.available.join id }, .parked, ?_, .park rfl hjobs⟩
          by_cases hstored : q.available.stored = true
          · -- the wake-up that was stored is used up, and there is still no job
            have henter : entering.step id false token q =
                some ({ q with available := { q.available with stored := false } }, .checking) := by
              simp [step, Signal.wait, hstored]
            rw [steps_succ (step_looking_nil hjobs), steps_succ henter, steps_succ (hcheck _)]
            exact steps_looking_of_unstored n hjobs rfl hid
          · exact steps_looking_of_unstored (n + 3) hjobs (Bool.not_eq_true _ ▸ hstored) hid

/-! ## Polls -/

/-- A consumer that is not within a round. -/
def Settled (c : Consumer α) : Prop := c = .checking ∨ c = .parked ∨ ∃ job, c = .returned job

omit [DecidableEq ι] in
theorem Round.settled (h : Round id cancelled q q' c') : c'.Settled := by
  cases h with
  | quit _ => exact .inr (.inr ⟨none, rfl⟩)
  | @take job js _ _ => exact .inr (.inr ⟨some job, rfl⟩)
  | park _ _ => exact .inr (.inl rfl)

/-- What a poll makes of the queue and of a consumer. -/
inductive Polled (id : ι) (cancelled token : Bool) (q : JobQueue ι α) :
    Consumer α → JobQueue ι α → Consumer α → Prop where
  | begin {q' : JobQueue ι α} {c' : Consumer α} : Round id cancelled q q' c' → Polled id cancelled token q .checking q' c'
  | notice {q' : JobQueue ι α} {c' : Consumer α} : id ∈ q.available.woken → (cancelled = true → token = false) →
      Round id cancelled { q with available := q.available.taken id } q' c' → Polled id cancelled token q .parked q' c'
  | leave : cancelled = true → (id ∈ q.available.woken → token = true) →
      Polled id cancelled token q .parked { q with available := q.available.leave id } (.returned none)
  | wait : cancelled = false → id ∉ q.available.woken → Polled id cancelled token q .parked q .parked
  | rest {job} : Polled id cancelled token q (.returned job) q (.returned job)

/-- **Every poll does one of these,** as long as nobody is woken twice. -/
theorem poll_cases (hc : c.Settled) (hfresh : c = .checking → id ∉ q.available.woken)
    (hnodup : q.available.woken.Nodup) (h : c.poll id cancelled token q = (q', c')) :
    Polled id cancelled token q c q' c' := by
  rcases hc with rfl | rfl | ⟨job, rfl⟩
  · obtain ⟨q'', c'', hsteps, hround⟩ := steps_round 2 (hfresh rfl)
    cases hsteps.symm.trans h
    exact .begin hround
  · by_cases hwoken : id ∈ q.available.woken
    · by_cases hleave : cancelled = true ∧ token = true
      · obtain ⟨rfl, rfl⟩ := hleave
        have hstep : parked.step id true true q = some ({ q with available := q.available.leave id }, .returned none) := rfl
        rw [poll, steps_succ hstep, steps_of_none _ rfl] at h
        cases h
        exact .leave rfl fun _ => rfl
      · have htoken : cancelled = true → token = false := by
          intro hcancelled
          exact Bool.eq_false_iff.mpr fun htoken => hleave ⟨hcancelled, htoken⟩
        have hstep : parked.step id cancelled token q =
            some ({ q with available := q.available.taken id }, .checking) := by
          have hstays : ¬(cancelled && (token || decide (id ∉ q.available.woken))) = true := by
            simpa [hwoken] using htoken
          rw [step, if_neg hstays, Signal.take?, if_pos hwoken]
          rfl
        have hgone : id ∉ (q.available.taken id).woken := hnodup.not_mem_erase
        obtain ⟨q'', c'', hsteps, hround⟩ := steps_round (q := { q with available := q.available.taken id }) 1 hgone
        rw [poll, steps_succ hstep] at h
        cases hsteps.symm.trans h
        exact .notice hwoken htoken hround
    · cases cancelled with
      | true =>
          have hstep : parked.step id true token q =
              some ({ q with available := q.available.leave id }, .returned none) := by
            simp [step, hwoken]
          rw [poll, steps_succ hstep, steps_of_none _ rfl] at h
          cases h
          exact .leave rfl fun hmem => absurd hmem hwoken
      | false =>
          have hstep : parked.step id false token q = none := by
            simp [step, Signal.take?, hwoken]
          rw [poll, steps_of_none _ hstep] at h
          cases h
          exact .wait rfl hwoken
  · rw [poll, steps_of_none _ rfl] at h
    cases h
    exact .rest

end Consumer

end JobWorker
