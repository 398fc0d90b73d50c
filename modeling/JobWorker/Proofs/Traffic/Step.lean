import JobWorker.Proofs.Crowd.Step
import JobWorker.Queue.Traffic

/-!
# `JobWorker.Proofs.Traffic.Step` — what an action does in traffic

What becomes of jobs is read off a run: which push put which job into the queue, and which consumer took which job out
of it. A step of a consumer takes the first job, or it leaves all of them where they are; `Traffic.Step` lists what an
action can do, one line each.

## Contents
- **Events.** `TrafficEvent`, `Traffic.events`, `Traffic.history`, `Traffic.storings`, `Traffic.takings`.
- **Steps.** `Consumer.Passes`, `Consumer.step_cases`, `Traffic.Step`, `Traffic.perform_cases`, `Traffic.perform_next`.
- **Runs.** `Traffic.history_append`, `Traffic.run_preserves`.
-/

namespace JobWorker

/-! ## Events -/

/-- What happens to jobs: a push puts one into the queue, or a consumer takes one out of it. -/
inductive TrafficEvent (α : Type) where
  | stored (push : Nat) (job : α)
  | taken (consumer : Nat) (job : α)

namespace Traffic

variable {α : Type} (log log' : List (TrafficEvent α))

/-- The events of one action, read off the state before it. -/
def events (action : TrafficAction α) (before : Traffic α) : List (TrafficEvent α) :=
  match action with
  | .push id =>
    match before.pushes[id]? with
    | some ⟨job, .counted⟩ => [.stored id job]
    | _                    => []
  | .next id _ =>
    match before.member? id with
    | some ⟨.looking, _⟩ => before.queue.jobs.head?.toList.map (.taken id)
    | _                  => []
  | _ => []

/-- The events of a run, in order. -/
def history : List (TrafficAction α) → Traffic α → List (TrafficEvent α)
  | [], _                => []
  | action :: actions, s =>
    match s.perform action with
    | some s' => events action s ++ history actions s'
    | none    => []

/-- The jobs that were put into the queue, each with the number of its push, in order. -/
def storings : List (Nat × α) :=
  log.filterMap fun
    | .stored push job => some (push, job)
    | .taken _ _       => none

/-- The jobs that were taken out of the queue, each with the number of its consumer, in order. -/
def takings : List (Nat × α) :=
  log.filterMap fun
    | .taken consumer job => some (consumer, job)
    | .stored _ _         => none

@[simp] theorem storings_append : storings (log ++ log') = storings log ++ storings log' := List.filterMap_append

@[simp] theorem takings_append : takings (log ++ log') = takings log ++ takings log' := List.filterMap_append

variable (id : Nat) (job : α)

@[simp] theorem storings_stored : storings [.stored id job] = [(id, job)] := rfl

@[simp] theorem storings_taken : storings [.taken id job] = [] := rfl

@[simp] theorem takings_stored : takings [.stored id job] = [] := rfl

@[simp] theorem takings_taken : takings [.taken id job] = [(id, job)] := rfl

end Traffic

/-! ## Steps -/

namespace Consumer

variable {ι α : Type} [DecidableEq ι] {id : ι} {cancelled token : Bool} {q q' : JobQueue ι α} {c c' : Consumer α}

/-- A step in which no job is taken: who looks for one finds none, and only who is cancelled gives up. -/
structure Passes (cancelled : Bool) (q : JobQueue ι α) (c c' : Consumer α) : Prop where
  going : ∀ job, c ≠ .returned job
  missed : c = .looking → q.jobs = []
  empty : ∀ job, c' ≠ .returned (some job)
  quits : c' = .returned none → cancelled = true
  barred : c = .checking → cancelled = true → c' = .returned none

/-- **A step takes the first job, or leaves all of them.** -/
theorem step_cases (h : c.step id cancelled token q = some (q', c')) :
    (∃ job js, c = .looking ∧ q.jobs = job :: js ∧ q' = { q with jobs := js } ∧ c' = .returned (some job)) ∨
      (q'.jobs = q.jobs ∧ Passes cancelled q c c') := by
  cases c with
  | checking =>
      cases h
      refine .inr ⟨rfl, by simp, by simp, fun job => ?_, ?_, ?_⟩
      · cases cancelled <;> simp
      · cases cancelled <;> simp
      · rintro - rfl
        rfl
  | looking =>
      cases hjobs : q.jobs with
      | nil =>
          rw [step_looking_nil hjobs] at h
          cases h
          exact .inr ⟨hjobs, by simp, fun _ => hjobs, by simp, by simp, by simp⟩
      | cons job js =>
          rw [step_looking_cons hjobs] at h
          cases h
          exact .inl ⟨job, js, rfl, rfl, rfl, rfl⟩
  | entering =>
      rw [step] at h
      split at h
      · rename_i hquits
        cases h
        exact .inr ⟨rfl, by simp, by simp, by simp, fun _ => (Bool.and_eq_true_iff.mp hquits).1, by simp⟩
      · rcases hwait : q.available.wait id with ⟨signal, woken⟩
        rw [hwait] at h
        cases woken with
        | false | true =>
            cases h
            exact .inr ⟨rfl, by simp, by simp, by simp, by simp, by simp⟩
  | parked =>
      rw [step] at h
      split at h
      · rename_i hquits
        cases h
        exact .inr ⟨rfl, by simp, by simp, by simp, fun _ => (Bool.and_eq_true_iff.mp hquits).1, by simp⟩
      · obtain ⟨signal, -, heq⟩ := Option.map_eq_some_iff.mp h
        cases heq
        exact .inr ⟨rfl, by simp, by simp, by simp, by simp, by simp⟩
  | returned job => cases h

end Consumer

namespace Traffic

variable {α : Type} {s s' : Traffic α} {action : TrafficAction α} {actions rest : List (TrafficAction α)}
variable {log events : List (TrafficEvent α)}

/-- What an action makes of traffic, with its events. -/
inductive Step (s : Traffic α) : List (TrafficEvent α) → Traffic α → Prop where
  | aside {queue} : queue.jobs = s.queue.jobs → Step s [] (s.setQueue queue)
  | offer {job} : Step s [] { s with pushes := s.pushes ++ [{ job }] }
  | store {id : Nat} {job : α} : s.pushes[id]? = some { job, phase := .counted } →
      Step s [.stored id job]
        { s with queue := s.queue.store job, pushes := s.pushes.set id { job, phase := .stored } }
  | proceed {id : Nat} {p p' : Push α} {queue : JobQueue Nat α} : s.pushes[id]? = some p → p'.job = p.job →
      p'.isStored = p.isStored → queue.jobs = s.queue.jobs →
      Step s [] { s with queue, pushes := s.pushes.set id p' }
  | join {cancelled} : Step s [] { s with members := s.members ++ [some { cancelled }] }
  | cancel {id : Nat} {m : Member α} : s.member? id = some m →
      Step s [] (s.setMember id (some { m with cancelled := true }))
  | take {id : Nat} {cancelled : Bool} {job : α} {js : List α} : s.member? id = some ⟨.looking, cancelled⟩ →
      s.queue.jobs = job :: js →
      Step s [.taken id job]
        ((s.setQueue { s.queue with jobs := js }).setMember id (some ⟨.returned (some job), cancelled⟩))
  | pass {id : Nat} {m : Member α} {consumer : Consumer α} {queue : JobQueue Nat α} : s.member? id = some m →
      queue.jobs = s.queue.jobs → m.consumer.Passes m.cancelled s.queue consumer →
      Step s [] ((s.setQueue queue).setMember id (some { m with consumer }))
  | leave {id : Nat} {m : Member α} {queue : JobQueue Nat α} : s.member? id = some m →
      (∀ job, m.consumer ≠ .returned job) → queue.jobs = s.queue.jobs → Step s [] ((s.setQueue queue).setMember id none)

/-- **Every action makes one of these steps.** -/
theorem perform_cases (h : s.perform action = some s') : s.Step (Traffic.events action s) s' := by
  cases action with
  | offer job =>
      cases h
      exact .offer
  | push id =>
      obtain ⟨⟨job, phase⟩, hp, h⟩ := Option.bind_eq_some_iff.mp h
      cases phase with
      | counted =>
          cases h
          simp only [Traffic.events, hp]
          exact .store hp
      | begun | stored =>
          cases h
          simp only [Traffic.events, hp]
          exact .proceed hp rfl rfl rfl
      | announced => cases h
  | join cancelled =>
      cases h
      exact .join
  | cancel id =>
      obtain ⟨m, hm, h⟩ := Option.map_eq_some_iff.mp h
      cases h
      exact .cancel hm
  | next id token =>
      obtain ⟨⟨consumer, cancelled⟩, hm, h⟩ := Option.bind_eq_some_iff.mp h
      obtain ⟨⟨queue, consumer'⟩, hstep, h⟩ := Option.bind_eq_some_iff.mp h
      cases h
      rcases Consumer.step_cases hstep with ⟨job, js, hlooking, hjobs, hqueue, hreturned⟩ | ⟨hjobs, hpasses⟩
      · dsimp only at hlooking
        subst hlooking hqueue hreturned
        simp only [Traffic.events, hm, hjobs]
        exact .take hm hjobs
      · have hnone : Traffic.events (.next id token) s = [] := by
          simp only [Traffic.events, hm]
          split
          · rename_i heq
            cases heq
            rw [hpasses.missed rfl]
            rfl
          · rfl
        rw [hnone]
        exact .pass hm hjobs hpasses
  | leave id =>
      obtain ⟨⟨consumer, cancelled⟩, hm, h⟩ := Option.bind_eq_some_iff.mp h
      cases consumer with
      | checking | parked =>
          cases h
          exact .leave hm nofun rfl
      | looking | entering | returned _ => cases h
  | discount | release =>
      cases h
      exact .aside rfl

/-- A consumer that can make a step makes it. -/
theorem perform_next {id : Nat} {token : Bool} {m : Member α} {queue : JobQueue Nat α} {consumer : Consumer α}
    (hm : s.member? id = some m) (hstep : m.consumer.step id m.cancelled token s.queue = some (queue, consumer)) :
    s.perform (.next id token) = some ((s.setQueue queue).setMember id (some { m with consumer })) := by
  rw [perform, next, hm]
  simp only [Option.bind_eq_bind, Option.bind_some, hstep]
  rfl

/-! ## Runs -/

theorem history_append (h : run actions s = some s') :
    history (actions ++ rest) s = history actions s ++ history rest s' := by
  induction actions generalizing s with
  | nil =>
      cases h
      rfl
  | cons action actions ih =>
      obtain ⟨v, hv, h⟩ := Option.bind_eq_some_iff.mp h
      rw [List.cons_append, history, history, hv]
      dsimp only
      rw [ih h, List.append_assoc]

/-- What each step keeps, with the events so far as part of the state, a run keeps. -/
theorem run_preserves {P : List (TrafficEvent α) → Traffic α → Prop}
    (step : ∀ {log s events s'}, P log s → Step s events s' → P (log ++ events) s')
    (log : List (TrafficEvent α)) (hP : P log s) (h : run actions s = some s') : P (log ++ history actions s) s' := by
  induction actions generalizing log s with
  | nil =>
      cases h
      rw [history, List.append_nil]
      exact hP
  | cons action actions ih =>
      obtain ⟨v, hv, h⟩ := Option.bind_eq_some_iff.mp h
      rw [history, hv]
      dsimp only
      rw [← List.append_assoc]
      exact ih _ (step hP (perform_cases hv)) h

end Traffic

end JobWorker
