import JobWorker.Proofs.Delivery.OpenCall
import JobWorker.Proofs.History.Deployment
import JobWorker.Proofs.Ledger.Reports
import JobWorker.Proofs.Step

/-!
# `JobWorker.Proofs.Order.Attempts` — the reports that reach the gateway

In a deployment a report reaches the gateway by a move of its own, and the gateway answers at once. So the
attempts that the gateway sees are, in the same order, the answers in the history of the worker. What the gateway
keeps of them is a part of them: those that it was not scripted to refuse.

## Contents
- **Attempts.** `Deployment.attempt`, `Deployment.attempts`, `Deployment.attempts_eq_answers`.
- **What the gateway keeps.** `CommandRequest.key`, `Gateway.Kept`, `Deployment.run_kept`.
-/

namespace JobWorker

/-! ## Attempts -/

namespace Deployment

/-- The report that a move brings to the gateway, if there is one, with the number of its handling. -/
def attempt (move : Move) (d : Deployment) : List (Nat × CommandRequest) :=
  match move with
  | .report id => (d.worker.handling? id).toList.flatMap Handling.underway
  | _          => []

/-- The reports that reach the gateway along a run, in order. -/
def attempts : List Move → Deployment → List (Nat × CommandRequest)
  | [], _            => []
  | move :: moves, d =>
    match d.perform move with
    | some d' => d.attempt move ++ attempts moves d'
    | none    => []

variable {d d' : Deployment} {move : Move} {moves : List Move}

/-- A report that reaches the gateway is that of a handling that waits for its answer. -/
theorem report_cases {id : Nat} (h : d.report id = some d') : ∃ hd request,
    d.worker.handling? id = some hd ∧ hd.phase = .reporting request ∧
    d.worker.perform (.answer id) = some d'.worker ∧ d'.gateway = (d.gateway.attempt request).1 := by
  obtain ⟨hd, hh, h⟩ := Option.bind_eq_some_iff.mp h
  split at h
  · rename_i request hphase
    obtain ⟨worker, hworker, h⟩ := Option.bind_eq_some_iff.mp h
    cases h
    exact ⟨hd, request, hh, hphase, hworker, rfl⟩
  · cases h

/-- The phase before is that of the handling that goes on. -/
theorem before_eq_of_mem {w w' : Worker} {i id : Nat} {hd : Handling} {job : Job} {before after : HandlingPhase}
    (hh : w.handling? i = some hd)
    (hmem : .advanced id job before after ∈ (match w.handling? i, w'.handling? i with
      | some h, some h' => [Event.advanced i h.job h.phase h'.phase]
      | _, _            => [])) : before = hd.phase := by
  rw [hh] at hmem
  cases hh' : w'.handling? i with
  | none =>
      rw [hh'] at hmem
      cases hmem
  | some hd' =>
      rw [hh', List.mem_singleton] at hmem
      cases hmem
      rfl

/-- A handling that goes on by itself, or whose handler comes back, does not wait for an answer. -/
theorem not_reporting_of_mem_events {action : Action} {w w' : Worker} {id : Nat} {job : Job}
    {before after : HandlingPhase} (hanswer : ∀ id, action ≠ .answer id) (h : w.perform action = some w')
    (hmem : .advanced id job before after ∈ Worker.events action w w') :
    ∀ request, before ≠ .reporting request := by
  have hof := Worker.isOf_of_mem_events hmem
  intro request hreporting
  cases Worker.perform_cases h with
  | @handle id hd hd' queue hh hstep =>
      have hp : hd.phase = .reporting request := (before_eq_of_mem hh hmem).symm.trans hreporting
      simp only [Handling.step, hp] at hstep
      cases hstep
  | @finish id hd result hh hp =>
      rw [before_eq_of_mem hh hmem, hp] at hreporting
      cases hreporting
  | answer _ _ => exact hanswer _ rfl
  | aside haside _ _ => cases action <;> simp [Event.isOf, Action.isAside] at hof haside
  | _ => cases hof

/-- So only an answer answers a report. -/
theorem answers_events {action : Action} {w w' : Worker} (hanswer : ∀ id, action ≠ .answer id)
    (h : w.perform action = some w') : History.answers (Worker.events action w w') = [] := by
  rw [History.answers, List.filterMap_eq_nil_iff]
  intro event hmem
  cases event with
  | advanced id job before after =>
      have hbefore := not_reporting_of_mem_events hanswer h hmem
      cases before with
      | reporting request => exact absurd rfl (hbefore request)
      | _ => rfl
  | _ => rfl

/-- What reaches the gateway by a move is what is answered by it. -/
theorem attempt_eq_answers (h : d.perform move = some d') :
    d.attempt move = History.answers (events move d d') := by
  cases move with
  | report id =>
      obtain ⟨hd, request, hh, hp, hworker, -⟩ := report_cases h
      obtain ⟨hd₁, hd', hh₁, hanswered, hw'⟩ := Worker.outside_cases hworker
      obtain rfl : hd = hd₁ := Option.some.inj (hh.symm.trans hh₁)
      simp only [Handling.answered, hp] at hanswered
      cases hanswered
      have hh' : d'.worker.handling? id = some { hd with phase := .settling } := by
        rw [hw']
        exact Worker.handling?_setHandling hh rfl
      obtain rfl := Worker.handling?_id hh
      simp [attempt, Handling.underway, events, action?, Worker.events, hh, hh', hp, History.answers]
  | worker action =>
      have hact : d.act action = some d' := h
      have hanswer : ∀ id, action ≠ .answer id := by
        rintro id rfl
        cases hact
      have hworker : d.worker.perform action = some d'.worker := by
        unfold act at hact
        split at hact
        · cases hact
        · cases hact
        · obtain ⟨worker, hworker, rfl⟩ := Option.map_eq_some_iff.mp hact
          exact hworker
      exact (answers_events hanswer hworker).symm
  | call token timer =>
      obtain ⟨call, event, -, hlink, hheard⟩ := call_cases h
      cases event with
      | none => simp only [attempt, events, action?, hlink, History.answers, List.filterMap_nil]
      | some event =>
          have hnone : History.answers (Worker.events (.gateway event) d.worker d'.worker) = [] :=
            answers_events (by simp) hheard
          simp only [attempt, events, action?, hlink, hnone]
  | command request | push batch | failActivations status times | failCommands status times => rfl

/-- What reaches the gateway along a run is what is answered, in the same order. -/
theorem attempts_eq_answers (h : d.run moves = some d') :
    attempts moves d = History.answers (history moves d) := by
  induction moves generalizing d with
  | nil => rfl
  | cons move moves ih =>
      obtain ⟨v, hv, h⟩ := Option.bind_eq_some_iff.mp h
      rw [attempts, history, hv]
      show d.attempt move ++ attempts moves v = History.answers (events move d v ++ history moves v)
      rw [History.answers_append, attempt_eq_answers hv, ih h]

end Deployment

/-! ## What the gateway keeps -/

/-- The key of the job that a request is about. -/
def CommandRequest.key : CommandRequest → Int
  | .complete r   => r.key
  | .fail r       => r.key
  | .throwError r => r.key

namespace Gateway

/-- What has become of a gateway that was tried with some requests: it has counted them, and kept some of them in
their order. -/
structure Kept (tried : List CommandRequest) (g g' : Gateway) : Prop where
  count : g'.commandAttempts = g.commandAttempts + tried.length
  completed : g'.completed.Sublist (g.completed ++ tried.filterMap CommandRequest.complete?)
  failed : g'.failed.Sublist (g.failed ++ tried.filterMap CommandRequest.fail?)

variable {g g' g'' : Gateway} {tried tried' : List CommandRequest}

/-- What is no command leaves the commands alone. -/
theorem Kept.of_eq (hcount : g'.commandAttempts = g.commandAttempts) (hcompleted : g'.completed = g.completed)
    (hfailed : g'.failed = g.failed) : Kept [] g g' := by
  constructor
  · exact hcount
  · simp [hcompleted]
  · simp [hfailed]

theorem Kept.trans (h : Kept tried g g') (h' : Kept tried' g' g'') : Kept (tried ++ tried') g g'' := by
  constructor
  · rw [h'.count, h.count, List.length_append, Nat.add_assoc]
  · rw [List.filterMap_append, ← List.append_assoc]
    exact h'.completed.trans (h.completed.append_right _)
  · rw [List.filterMap_append, ← List.append_assoc]
    exact h'.failed.trans (h.failed.append_right _)

/-- An attempt is counted; it is kept unless it was scripted to fail. -/
theorem attempt_kept (request : CommandRequest) (g : Gateway) : Kept [request] g (g.attempt request).1 := by
  simp only [attempt]
  split
  · rcases request with r | r | r
    · exact ⟨rfl, List.Sublist.refl _, List.sublist_append_left _ _⟩
    · exact ⟨rfl, List.sublist_append_left _ _, List.Sublist.refl _⟩
    · exact ⟨rfl, List.sublist_append_left _ _, List.sublist_append_left _ _⟩
  · exact ⟨rfl, List.sublist_append_left _ _, List.sublist_append_left _ _⟩

/-- Serving a batch leaves the commands alone. -/
theorem nextBatch?_kept {n : Nat} {name : String} {served : Batch}
    (h : g.nextBatch? n name = some (served, g')) : Kept [] g g' := by
  unfold nextBatch? at h
  split at h
  · cases h
  · cases h
    exact .of_eq rfl rfl rfl

end Gateway

/-- A step of a call leaves the commands alone. -/
theorem Call.step_kept {c c' : Call} {g g' : Gateway} {now : Time} {timer : Bool}
    (h : c.step now timer g = some (g', c')) : Gateway.Kept [] g g' := by
  have same : Gateway.Kept [] g g := .of_eq rfl rfl rfl
  obtain ⟨request, phase⟩ := c
  cases phase with
  | arriving =>
      simp only [step, Gateway.accept] at h
      cases hfailures : g.activationFailures with
      | nil | cons status later =>
          simp only [hfailures] at h
          cases h
          exact .of_eq rfl rfl rfl
  | accepted => cases h; exact same
  | looking seen =>
      simp only [step] at h
      split at h
      · rename_i batch g₁ hnext
        cases h
        exact Gateway.nextBatch?_kept hnext
      · cases h
        exact same
  | held seen due =>
      simp only [step] at h
      repeat' split at h
      · cases h
        exact same
      · simp only [serve] at h
        split at h
        · rename_i batch g₁ hnext
          cases h
          exact Gateway.nextBatch?_kept hnext
        · cases h
          exact same
      · cases h
  | answered answer => cases h

namespace Deployment

variable {d d' : Deployment} {move : Move} {moves : List Move}

/-- What a move brings to the gateway is what it is tried with, apart from the commands of handlers. -/
theorem perform_kept (h : d.perform move = some d') (hown : ∀ request, move ≠ .command request) :
    Gateway.Kept ((d.attempt move).map (·.2)) d.gateway d'.gateway := by
  cases move with
  | worker action =>
      have hact : d.act action = some d' := h
      unfold act at hact
      split at hact
      · cases hact
      · cases hact
      · obtain ⟨worker, -, rfl⟩ := Option.map_eq_some_iff.mp hact
        exact .of_eq rfl rfl rfl
  | call token timer =>
      obtain ⟨call, event, -, hlink, -⟩ := call_cases h
      show Gateway.Kept [] _ _
      generalize d.link = link, d'.link = link', d'.gateway = g' at hlink ⊢
      cases Link.step_cases hlink with
      | goOn hstep => exact Call.step_kept hstep
      | _ => exact .of_eq rfl rfl rfl
  | report id =>
      obtain ⟨hd, request, hh, hp, -, hgateway⟩ := report_cases h
      have hattempt : (d.attempt (.report id)).map (·.2) = [request] := by
        simp [attempt, hh, Handling.underway, hp]
      rw [hattempt, hgateway]
      exact Gateway.attempt_kept request d.gateway
  | command request => exact absurd rfl (hown request)
  | push batch | failActivations status times | failCommands status times =>
      cases h
      exact .of_eq rfl rfl rfl

/-- So without commands of handlers the gateway **counts the reports and keeps some of them, in their order.** -/
theorem run_kept (h : d.run moves = some d') (hown : ∀ request, .command request ∉ moves) :
    Gateway.Kept ((attempts moves d).map (·.2)) d.gateway d'.gateway := by
  induction moves generalizing d with
  | nil =>
      cases h
      exact .of_eq rfl rfl rfl
  | cons move moves ih =>
      obtain ⟨v, hv, h⟩ := Option.bind_eq_some_iff.mp h
      have hfirst := perform_kept hv fun request heq => hown request (heq ▸ List.mem_cons_self)
      have hrest := ih h fun request hmem => hown request (List.mem_cons_of_mem _ hmem)
      rw [attempts, hv]
      show Gateway.Kept ((d.attempt move ++ attempts moves v).map (·.2)) _ _
      rw [List.map_append]
      exact hfirst.trans hrest

end Deployment

end JobWorker
