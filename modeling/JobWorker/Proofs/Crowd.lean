import JobWorker.Proofs.Crowd.Step

/-!
# `JobWorker.Proofs.Crowd` — the wake-ups of many consumers

As long as anybody waits who was not woken, there are as many woken consumers as there are jobs, so each job has somebody
who is about to come for it. There is one way for this to end: a consumer whose token fired after it had been woken
notices the wake-up first, and then quits over its token without having passed the wake-up on. As long as that does not
happen, a crowd in which nobody can go on has no jobs, or nobody waits there.

## Contents
- **Rest.** `Member.isRunnable`, `Crowd.AtRest`.
- **Wake-ups.** `Crowd.Enough`, `Crowd.Loses`, `Crowd.Step.enough_iff`.
- **Runs.** `Crowd.Lossless`, `Crowd.lossless_of_token`, `Crowd.run_orderly`, `Crowd.run_enough`.
- **Between a wake-up and a token.** `Crowd.Torn`, `Crowd.Torn.perform_token`, `Crowd.Torn.perform_wakeup`.
- **The law.** `Crowd.run_wakes`.
-/

namespace JobWorker

/-! ## Enough wake-ups -/

namespace Signal

variable {ι : Type} [DecidableEq ι] {s : Signal ι} {w : ι} {n k : Nat}

/-- While somebody waits who was not woken, there are at least so many who were. -/
def Meets (n : Nat) (s : Signal ι) : Prop := s.waiting ≠ [] → n ≤ s.woken.length

omit [DecidableEq ι] in
theorem Meets.mono (h : s.Meets n) (hk : k ≤ n) : s.Meets k := fun hne => Nat.le_trans hk (h hne)

omit [DecidableEq ι] in
theorem meets_zero : s.Meets 0 := fun _ => Nat.zero_le _

omit [DecidableEq ι] in
theorem not_meets_succ_iff : ¬s.Meets (n + 1) ↔ s.waiting ≠ [] ∧ s.woken.length ≤ n := by
  rw [Meets, Classical.not_imp, Nat.not_le, Nat.lt_succ_iff]

omit [DecidableEq ι] in
/-- A wake-up is enough for one more. -/
theorem Meets.notify (h : s.Meets n) : s.notify.Meets (n + 1) := by
  unfold Signal.notify
  split
  · rename_i hnone
    exact fun hne => absurd hnone hne
  · rename_i first others hwaiting
    intro _
    rw [List.length_append, List.length_singleton]
    exact Nat.succ_le_succ (h (hwaiting ▸ List.cons_ne_nil first others))

/-- One that notices its wake-up uses it up. -/
theorem meets_taken_iff (hw : w ∈ s.woken) : (s.taken w).Meets n ↔ s.Meets (n + 1) := by
  have hpos : 0 < s.woken.length := List.length_pos_of_mem hw
  have hlength : (s.taken w).woken.length = s.woken.length - 1 := List.length_erase_of_mem hw
  constructor
  · intro h hne
    have hfew := h hne
    omega
  · intro h hne
    have hfew := h hne
    omega

/-- One that leaves without having noticed its wake-up does not. -/
theorem Meets.leave (h : s.Meets n) : (s.leave w).Meets n := by
  unfold Signal.leave
  split
  · rename_i hwoken
    cases n with
    | zero => exact meets_zero
    | succ n => exact ((meets_taken_iff hwoken).mpr h).notify
  · intro hne
    apply h
    rintro hnone
    rw [hnone] at hne
    exact hne rfl

end Signal

/-- **A poll leaves enough wake-ups for the jobs, but in one case:** where a consumer whose token has fired notices its
wake-up first. -/
theorem Consumer.Polled.meets_iff {ι α : Type} [DecidableEq ι] {id : ι} {cancelled token : Bool} {q q' : JobQueue ι α}
    {c c' : Consumer α} (h : Polled id cancelled token q c q' c') (hq : q.available.Meets q.jobs.length) :
    q'.available.Meets q'.jobs.length ↔
      ¬(token = false ∧ c = .parked ∧ cancelled = true ∧ id ∈ q.available.woken ∧
        ¬q.available.Meets (q.jobs.length + 1)) := by
  cases h with
  | begin hround =>
      have hyes : q'.available.Meets q'.jobs.length := by
        cases hround with
        | quit _ => exact hq
        | take _ hjobs =>
            rw [hjobs] at hq
            exact hq.mono (Nat.le_succ _)
        | park _ hjobs =>
            rw [hjobs]
            exact Signal.meets_zero
      exact iff_of_true hyes fun ⟨_, hparked, _⟩ => nomatch hparked
  | notice hwoken htoken hround =>
      cases hround with
      | quit hcancelled =>
          -- the wake-up is used up, but the job it was for is still there
          refine (Signal.meets_taken_iff hwoken).trans ?_
          constructor
          · rintro henough ⟨-, -, -, -, hfew⟩
            exact hfew henough
          · intro hnot
            exact Classical.byContradiction fun hfew => hnot ⟨htoken hcancelled, rfl, hcancelled, hwoken, hfew⟩
      | take hgoing hjobs =>
          rw [hjobs] at hq
          exact iff_of_true ((Signal.meets_taken_iff hwoken).mpr hq) fun ⟨_, _, hfired, _⟩ => nomatch hgoing.symm.trans hfired
      | park hgoing hjobs =>
          have hnone : q.jobs.length = 0 := congrArg List.length hjobs
          refine iff_of_true ?_ fun ⟨_, _, hfired, _⟩ => nomatch hgoing.symm.trans hfired
          show Signal.Meets q.jobs.length _
          rw [hnone]
          exact Signal.meets_zero
  | leave _ htoken => exact iff_of_true hq.leave fun ⟨hfirst, _, _, hwoken, _⟩ => nomatch hfirst.symm.trans (htoken hwoken)
  | wait hgoing _ => exact iff_of_true hq fun ⟨_, _, hfired, _⟩ => nomatch hgoing.symm.trans hfired
  | rest => exact iff_of_true hq fun ⟨_, hparked, _⟩ => nomatch hparked

/-! ## Rest -/

/-- Whether a consumer can go on: it has just come, or it waits and its token has fired or it was woken. -/
def Member.isRunnable {α : Type} (id : Nat) (q : JobQueue Nat α) (m : Member α) : Bool :=
  match m.consumer with
  | .returned _ => false
  | .parked     => m.consumer.isWoken id m.cancelled q
  | _           => true

namespace Crowd

variable {α : Type} {s s' : Crowd α} {action : CrowdAction α} {actions : List (CrowdAction α)} {id : Nat} {m : Member α}

/-- Nobody can go on. -/
def AtRest (s : Crowd α) : Prop := ∀ id m, s.member? id = some m → m.isRunnable id s.queue = false

/-- While somebody waits who was not woken, there are as many woken consumers as there are jobs. -/
def Enough (s : Crowd α) : Prop := s.queue.available.Meets s.queue.jobs.length

/-- A wake-up gets lost: a woken consumer whose token has fired notices the wake-up first, while somebody waits and no
other woken consumer is left over for its job. -/
def Loses (s : Crowd α) : CrowdAction α → Prop
  | .poll id false => ∃ m, s.member? id = some m ∧ m.consumer = .parked ∧ m.cancelled = true ∧
      id ∈ s.queue.available.woken ∧ s.queue.available.waiting ≠ [] ∧
      s.queue.available.woken.length ≤ s.queue.jobs.length
  | _ => False

/-- Only a poll in which the wake-up is noticed can lose it. -/
theorem loses_poll_iff {token : Bool} (hm : s.member? id = some m) :
    s.Loses (.poll id token) ↔ token = false ∧ m.consumer = .parked ∧ m.cancelled = true ∧
      id ∈ s.queue.available.woken ∧ ¬s.queue.available.Meets (s.queue.jobs.length + 1) := by
  cases token with
  | true => exact iff_of_false (fun h => h) fun ⟨htoken, _⟩ => nomatch htoken
  | false =>
      rw [Signal.not_meets_succ_iff]
      constructor
      · rintro ⟨other, hother, hparked, hcancelled, hrest⟩
        cases hm.symm.trans hother
        exact ⟨rfl, hparked, hcancelled, hrest⟩
      · rintro ⟨-, hparked, hcancelled, hrest⟩
        exact ⟨m, hm, hparked, hcancelled, hrest⟩

/-- **An action leaves enough wake-ups if and only if it loses none.** -/
theorem Step.enough_iff (step : s.Step action s') (hs : s.Orderly) (henough : s.Enough) :
    s'.Enough ↔ ¬s.Loses action := by
  cases step with
  | @push job =>
      refine iff_of_true ?_ fun h => h
      show s.queue.available.notify.Meets (s.queue.jobs ++ [job]).length
      rw [List.length_append, List.length_singleton]
      exact henough.notify
  | finish | join | cancel _ => exact iff_of_true henough fun h => h
  | poll hm hpoll =>
      rw [loses_poll_iff hm]
      exact (hs.polled hm hpoll).meets_iff henough
  | @leave id m hm =>
      refine iff_of_true ?_ fun h => h
      show (m.consumer.forget id s.queue).available.Meets (m.consumer.forget id s.queue).jobs.length
      cases m.consumer with
      | parked => exact henough.leave
      | checking | looking | entering | returned _ => exact henough

/-- A crowd at rest in which there are enough wake-ups has no jobs, or all its consumers have their results. -/
theorem AtRest.returned (hrest : s.AtRest) (hs : s.Orderly) (henough : s.Enough) (hjobs : s.queue.jobs ≠ [])
    (hm : s.member? id = some m) : ∃ job, m.consumer = .returned job := by
  -- whoever is woken could go on, so where there are jobs nobody can wait either
  have hnobody : s.queue.available.woken = [] := by
    rw [List.eq_nil_iff_forall_not_mem]
    intro other hwoken
    obtain ⟨m', hm', hparked⟩ := (hs.signal.mem_iff other).mpr (List.mem_append_right _ hwoken)
    have hstill := hrest other m' hm'
    simp [Member.isRunnable, Consumer.isWoken, hparked, hwoken] at hstill
  rcases hs.settled id m hm with hchecking | hparked | hreturned
  · have hstill := hrest id m hm
    rw [Member.isRunnable, hchecking] at hstill
    cases hstill
  · have hhere := (hs.signal.mem_iff id).mp ⟨m, hm, hparked⟩
    rw [hnobody, List.append_nil] at hhere
    have hfew := henough (List.ne_nil_of_mem hhere)
    rw [hnobody] at hfew
    exact absurd (List.eq_nil_of_length_eq_zero (Nat.le_zero.mp hfew)) hjobs
  · exact hreturned

/-! ## Runs -/

/-- A run in which no wake-up gets lost. -/
def Lossless : List (CrowdAction α) → Crowd α → Prop
  | [], _                => True
  | action :: actions, s => ¬s.Loses action ∧ ∀ s', s.perform action = some s' → Lossless actions s'

/-- None does where a consumer whose token and wake-up are both ready always notices the token. -/
theorem lossless_of_token (h : ∀ id, .poll id false ∉ actions) : Lossless actions s := by
  induction actions generalizing s with
  | nil => trivial
  | cons action actions ih =>
      refine ⟨?_, fun s' _ => ih fun id hmem => h id (List.mem_cons_of_mem _ hmem)⟩
      intro hloses
      unfold Loses at hloses
      split at hloses
      · exact h _ List.mem_cons_self
      · exact hloses

/-- A crowd that begins is orderly, and needs no wake-ups. -/
theorem orderly_ofMax (maxJobs : Nat) : (ofMax maxJobs : Crowd α).Orderly ∧ (ofMax maxJobs : Crowd α).Enough := by
  have hnone : ∀ id, (ofMax maxJobs : Crowd α).member? id = none := fun id => rfl
  refine ⟨⟨fun id m hm => ?_, ⟨fun id => ?_, List.nodup_nil, fun _ => rfl⟩⟩, Signal.meets_zero⟩
  · rw [hnone] at hm
    cases hm
  · refine iff_of_false ?_ List.not_mem_nil
    rintro ⟨m, hm, -⟩
    rw [hnone] at hm
    cases hm

theorem run_orderly (hs : s.Orderly) (h : run actions s = some s') : s'.Orderly := by
  induction actions generalizing s with
  | nil =>
      cases h
      exact hs
  | cons action actions ih =>
      obtain ⟨v, hv, h⟩ := Option.bind_eq_some_iff.mp h
      exact ih ((perform_cases hv).orderly hs) h

/-- As long as no wake-up gets lost, there are enough. -/
theorem run_enough (hs : s.Orderly) (henough : s.Enough) (hlossless : Lossless actions s)
    (h : run actions s = some s') : s'.Enough := by
  induction actions generalizing s with
  | nil =>
      cases h
      exact henough
  | cons action actions ih =>
      obtain ⟨v, hv, h⟩ := Option.bind_eq_some_iff.mp h
      have step := perform_cases hv
      exact ih (step.orderly hs) ((step.enough_iff hs henough).mpr hlossless.1) (hlossless.2 v hv) h

/-! ## Between a wake-up and a token -/

/-- A consumer can be polled at any time. -/
theorem perform_poll (token : Bool) (hs : s.Orderly) (hm : s.member? id = some m) :
    ∃ s' consumer, s.perform (.poll id token) = some s' ∧ s'.member? id = some { m with consumer } ∧
      Consumer.Polled id m.cancelled token s.queue m.consumer s'.queue consumer := by
  obtain ⟨queue, consumer, hpoll⟩ : ∃ queue consumer,
      m.consumer.poll id m.cancelled token s.queue = (queue, consumer) := ⟨_, _, rfl⟩
  refine ⟨{ s with queue }.setMember id (some { m with consumer }), consumer, ?_, ?_, hs.polled hm hpoll⟩
  · simp only [perform, poll, hm, hpoll, Option.bind_eq_bind, Option.bind_some]
    rfl
  · exact member?_setMember_self (s := { s with queue }) (lt_of_member? hm)

/-- A woken consumer whose token has fired, before it is polled. -/
structure Torn (s : Crowd α) (id : Nat) (m : Member α) : Prop where
  member : s.member? id = some m
  parked : m.consumer = .parked
  cancelled : m.cancelled = true
  woken : id ∈ s.queue.available.woken

/-- Where it notices its token, its wake-up goes to the longest waiter, or is stored. -/
theorem Torn.perform_token (ht : s.Torn id m) (hs : s.Orderly) :
    ∃ s', s.perform (.poll id true) = some s' ∧ s'.member? id = some { m with consumer := .returned none } ∧
      s'.queue = { s.queue with available := (s.queue.available.taken id).notify } := by
  obtain ⟨s', consumer, hperform, hmember, hpolled⟩ := perform_poll true hs ht.member
  refine ⟨s', hperform, ?_⟩
  rw [ht.parked, ht.cancelled] at hpolled
  generalize s'.queue = q' at hpolled
  cases hpolled with
  | leave _ _ =>
      refine ⟨hmember, ?_⟩
      rw [Signal.leave, if_pos ht.woken]
      rfl
  | notice _ htoken _ => nomatch htoken rfl
  | wait hgoing _ => nomatch hgoing

/-- Where it notices the wake-up, nobody gets it. -/
theorem Torn.perform_wakeup (ht : s.Torn id m) (hs : s.Orderly) :
    ∃ s', s.perform (.poll id false) = some s' ∧ s'.member? id = some { m with consumer := .returned none } ∧
      s'.queue = { s.queue with available := s.queue.available.taken id } := by
  obtain ⟨s', consumer, hperform, hmember, hpolled⟩ := perform_poll false hs ht.member
  refine ⟨s', hperform, ?_⟩
  rw [ht.parked, ht.cancelled] at hpolled
  generalize s'.queue = q' at hpolled
  cases hpolled with
  | leave _ htoken => nomatch htoken ht.woken
  | wait hgoing _ => nomatch hgoing
  | notice _ _ hround =>
      cases hround with
      | quit _ => exact ⟨hmember, rfl⟩
      | take hgoing _ | park hgoing _ => nomatch hgoing

/-! ## The law -/

/-- **Where no wake-up gets lost, no job is left lying.** In a crowd that a run reaches, whatever was pushed and whoever
came, was cancelled, was polled and left in whatever order:

* if no wake-up got lost and nobody can go on, there are no jobs, or nobody waits any more,
* no wake-up gets lost where all that are woken and cancelled notice that they are cancelled,
* one of these that does so passes its wake-up to the longest waiter, or stores it where nobody waits; one that notices
  the wake-up quits as well, and nobody gets it,
* as long as there are enough wake-ups for the jobs, there go on to be enough up to the first that gets lost. -/
theorem run_wakes {maxJobs : Nat} (h : run actions (ofMax maxJobs) = some s) :
    (Lossless actions (ofMax maxJobs) → s.AtRest → s.queue.jobs ≠ [] →
      ∀ id m, s.member? id = some m → ∃ job, m.consumer = .returned job) ∧
    ((∀ id, .poll id false ∉ actions) → Lossless actions (ofMax maxJobs)) ∧
    (∀ id m, s.Torn id m →
      (∃ s', s.perform (.poll id true) = some s' ∧ s'.member? id = some { m with consumer := .returned none } ∧
        s'.queue = { s.queue with available := (s.queue.available.taken id).notify }) ∧
      ∃ s', s.perform (.poll id false) = some s' ∧ s'.member? id = some { m with consumer := .returned none } ∧
        s'.queue = { s.queue with available := s.queue.available.taken id }) ∧
    ∀ action s', s.perform action = some s' → s.Enough → (s'.Enough ↔ ¬s.Loses action) := by
  obtain ⟨hstart, hnone⟩ := orderly_ofMax (α := α) maxJobs
  have hs := run_orderly hstart h
  refine ⟨?_, lossless_of_token, ?_, ?_⟩
  · intro hlossless hrest hjobs id m hm
    exact hrest.returned hs (run_enough hstart hnone hlossless h) hjobs hm
  · intro id m ht
    exact ⟨ht.perform_token hs, ht.perform_wakeup hs⟩
  · intro action s' hperform henough
    exact (perform_cases hperform).enough_iff hs henough

/-- Two consumers wait, a job wakes the first of them, and its token fires. -/
def tornFirst : List (CrowdAction Nat) :=
  [.join false, .poll 0 true, .join false, .poll 1 true, .push 7, .cancel 0]

/-- It passes its wake-up on, and the second gets the job while another comes in. -/
def passesOn : List (CrowdAction Nat) := tornFirst ++ [.poll 0 true, .push 8, .poll 1 true]

/-- Then nobody waits, though there is a job. -/
theorem passesOn_leaves_nobody :
    ∃ s : Crowd Nat, run passesOn (ofMax 4) = some s ∧ s.AtRest ∧ s.queue.jobs = [8] ∧
      (∀ id m, s.member? id = some m → ∃ job, m.consumer = .returned job) := by
  obtain ⟨s, hrun⟩ : ∃ s : Crowd Nat, run passesOn (ofMax 4) = some s := ⟨_, rfl⟩
  obtain ⟨hreturned, hlossless, -⟩ := run_wakes hrun
  have htokens : ∀ id, .poll id false ∉ passesOn := by
    simp [passesOn, tornFirst]
  have hrest : s.AtRest := by
    intro id m hm
    cases hrun
    rcases id with _ | _ | id <;> cases hm <;> rfl
  have hjobs : s.queue.jobs = [8] := by
    cases hrun
    rfl
  exact ⟨s, hrun, hrest, hjobs, hreturned (hlossless htokens) hrest (hjobs ▸ List.cons_ne_nil 8 [])⟩

/-- Where it notices the wake-up instead, the second waits for ever, though its token has not fired and there is a job. -/
theorem tornFirst_strands_second :
    ∃ s : Crowd Nat, run (tornFirst ++ [.poll 0 false]) (ofMax 4) = some s ∧ s.AtRest ∧ s.queue.jobs = [7] ∧
      s.member? 1 = some { consumer := .parked, cancelled := false } := by
  refine ⟨_, rfl, fun id m hm => ?_, rfl, rfl⟩
  rcases id with _ | _ | id <;> cases hm <;> rfl

end Crowd

end JobWorker
