import JobWorker.Proofs.Outbox.Step

/-!
# `JobWorker.Proofs.Outbox.Account` — the books of an outbox

Every attempt is counted and either recorded or paid for with a scripted failure, and failures are used up from the
front. What happened to a single command can be told from how it ended: it was refused for passing conditions any number
of times, and then once more for good, or kept. Both are kept by every line of `Outbox.Step`.

## Contents
- **Records.** `CommandRequest.length_kinds`, `Gateway.records`, `Gateway.Accounted`, `Outbox.Step.accounted`.
- **Commands.** `Sending.Told`, `Outbox.Told`, `Outbox.Step.told`.
- **Beginnings.** `Sending.order`, `Outbox.Begun`, `Outbox.Step.begun`.
-/

namespace JobWorker

open OutboxLog

/-! ## Records -/

namespace CommandRequest

/-- Every request is of one of the three kinds. -/
theorem length_kinds (requests : List CommandRequest) :
    (requests.filterMap complete?).length + (requests.filterMap fail?).length +
      (requests.filterMap throwError?).length = requests.length := by
  induction requests with
  | nil => rfl
  | cons request requests ih =>
      cases request with
      | _ r =>
          simp only [List.filterMap_cons, complete?, fail?, throwError?, List.length_cons] at ih ⊢
          omega

end CommandRequest

/-- How many commands a gateway has recorded. -/
def Gateway.records (g : Gateway) : Nat := g.completed.length + g.failed.length + g.thrown.length

/-- What a gateway recorded, counted and used up, against what happened. -/
structure Gateway.Accounted (failures : List Status) (log : List OutboxEvent) (g : Gateway) : Prop where
  completed : g.completed = (kept log).filterMap (·.complete?)
  failed : g.failed = (kept log).filterMap (·.fail?)
  thrown : g.thrown = (kept log).filterMap (·.throwError?)
  failures : refused log ++ g.commandFailures = failures
  attempts : g.commandAttempts = log.length

section Records

variable {o o' : Outbox} {g g' : Gateway} {s s' : Sending} {id i : Nat} {action : OutboxAction}
variable {log events : List OutboxEvent} {failures : List Status}

/-- Every event is a record or a failure. -/
theorem OutboxLog.length_eq (log : List OutboxEvent) : log.length = (kept log).length + (refused log).length := by
  induction log with
  | nil => rfl
  | cons event log ih =>
      rw [List.length_cons, ih]
      cases event with
      | kept id request =>
          show _ = (request :: kept log).length + (refused log).length
          rw [List.length_cons]
          omega
      | refused id request status =>
          show _ = (kept log).length + (status :: refused log).length
          rw [List.length_cons]
          omega

/-- The attempts of a gateway are its records and the failures that were used up. -/
theorem Gateway.Accounted.attempts_eq (hg : g.Accounted failures log) :
    g.commandAttempts = g.records + (refused log).length := by
  rw [hg.attempts, records, hg.completed, hg.failed, hg.thrown, CommandRequest.length_kinds, length_eq]

/-- A request that is kept is recorded with those of its kind. -/
theorem Gateway.keep_eq (request : CommandRequest) (g : Gateway) :
    g.keep request =
      { g with
        completed := g.completed ++ request.complete?.toList
        failed := g.failed ++ request.fail?.toList
        thrown := g.thrown ++ request.throwError?.toList } := by
  cases request with
  | _ r =>
      simp only [keep, CommandRequest.complete?, CommandRequest.fail?, CommandRequest.throwError?, Option.toList,
        List.append_nil]

/-- A command's own step keeps the books. -/
theorem Gateway.Accounted.step (hg : g.Accounted failures log) (step : s.Step id g events g' s') :
    g'.Accounted failures (log ++ events) := by
  obtain ⟨hcompleted, hfailed, hthrown, hfailures, hattempts⟩ := hg
  cases step with
  | keep _ hnone _ =>
      have hkept : kept (log ++ [.kept id s.request]) = kept log ++ [s.request] := kept_append log _
      rw [Gateway.keep_eq]
      refine ⟨?_, ?_, ?_, ?_, ?_⟩
      · rw [hkept, filterMap_concat, ← hcompleted]
      · rw [hkept, filterMap_concat, ← hfailed]
      · rw [hkept, filterMap_concat, ← hthrown]
      · rw [refused_append]
        simpa [refused] using hfailures
      · rw [List.length_append, ← hattempts]
        rfl
  | @fail status later _ _ hnext _ _ | @defer status later _ _ hnext _ _ _ =>
      have hkept : kept (log ++ [.refused id s.request status]) = kept log :=
        (kept_append log _).trans (List.append_nil _)
      refine ⟨?_, ?_, ?_, ?_, ?_⟩
      · rw [hkept]
        exact hcompleted
      · rw [hkept]
        exact hfailed
      · rw [hkept]
        exact hthrown
      · rw [refused_append, ← hfailures, hnext, List.append_assoc]
        rfl
      · rw [List.length_append, ← hattempts]
        rfl
  | stop _ _ _ | goOn _ _ =>
      rw [List.append_nil]
      exact ⟨hcompleted, hfailed, hthrown, hfailures, hattempts⟩

/-- **Every step keeps the books.** -/
theorem Outbox.Step.accounted (step : o.Step action events o') (ho : o.gateway.Accounted failures log) :
    o'.gateway.Accounted (failures ++ action.failures) (log ++ events) := by
  cases step with
  | @failCommands status times =>
      obtain ⟨hcompleted, hfailed, hthrown, hfailures, hattempts⟩ := ho
      rw [List.append_nil]
      refine ⟨hcompleted, hfailed, hthrown, ?_, hattempts⟩
      rw [← hfailures, List.append_assoc]
      rfl
  | own _ hstep =>
      simp only [OutboxAction.failures, List.append_nil]
      exact ho.step hstep
  | send | cancel _ | pass =>
      simp only [OutboxAction.failures, List.append_nil]
      exact ho

end Records

/-! ## Commands -/

/-- What happened to a command, from how it ended. It was refused for passing conditions, as often as it may be, then kept
if and only if it succeeded. One that failed was refused once more with its error, unless its token fired. -/
def Sending.Told (id : Nat) (s : Sending) (log : List OutboxEvent) : Prop :=
  ∃ passed : List Status, (∀ status ∈ passed, status.isTransient = true) ∧ (s.isOnce = true → passed = []) ∧
    match s.result? with
    | none            => log = passed.map (.refused id s.request)
    | some (.ok ())   => log = passed.map (.refused id s.request) ++ [.kept id s.request]
    | some (.error e) =>
      (e = .cancelled ∧ s.isOnce = false ∧ log = passed.map (.refused id s.request)) ∨
      ∃ status, e = .rpc status "scripted command failure" ∧ (s.isOnce = true ∨ status.isTransient = false) ∧
        log = passed.map (.refused id s.request) ++ [.refused id s.request status]

/-- What happened to each command: to those on their way, to those that made no request, and to those to come. -/
structure Outbox.Told (log : List OutboxEvent) (o : Outbox) : Prop where
  sendings : ∀ (id : Nat) (s : Sending), o.sendings[id]? = some (.ok s) → s.Told id (own id log)
  unsent : ∀ (id : Nat) (e : ClientError), o.sendings[id]? = some (.error e) → own id log = []
  future : ∀ id, o.sendings.length ≤ id → own id log = []

section Commands

variable {o o' : Outbox} {g g' : Gateway} {s s' : Sending} {id i : Nat} {action : OutboxAction}
variable {log events before : List OutboxEvent}

theorem Sending.Step.result?_eq_none (step : s.Step id g events g' s') : s.result? = none := by
  cases step <;> assumption

/-- A command's own step tells it what it can tell afterwards. -/
theorem Sending.Step.told (step : s.Step id g events g' s') (hs : s.Told id before) : s'.Told id (before ++ events) := by
  obtain ⟨passed, hpassed, honce, htold⟩ := hs
  rw [step.result?_eq_none] at htold
  dsimp only at htold
  subst htold
  cases step with
  | keep _ _ hs' =>
      refine ⟨passed, hpassed, hs'.isOnce ▸ honce, ?_⟩
      rw [hs'.result, hs'.request]
  | @fail status _ _ _ _ hfinal hs' =>
      refine ⟨passed, hpassed, hs'.isOnce ▸ honce, ?_⟩
      rw [hs'.result, hs'.request, hs'.isOnce]
      exact .inr ⟨status, rfl, hfinal, rfl⟩
  | @defer status _ _ _ _ hagain hpassing hs' =>
      refine ⟨passed ++ [status], ?_, ?_, ?_⟩
      · intro other hmem
        rcases List.mem_append.mp hmem with hold | hnew
        · exact hpassed other hold
        · rw [List.mem_singleton.mp hnew]
          exact hpassing
      · rw [hs'.isOnce, hagain]
        nofun
      · rw [hs'.result, hs'.request, List.map_append]
        rfl
  | stop _ hagain hs' =>
      refine ⟨passed, hpassed, hs'.isOnce ▸ honce, ?_⟩
      rw [hs'.result, hs'.request, hs'.isOnce, List.append_nil]
      exact .inl ⟨rfl, hagain, rfl⟩
  | goOn _ hs' =>
      refine ⟨passed, hpassed, hs'.isOnce ▸ honce, ?_⟩
      rw [hs'.result, hs'.request, List.append_nil]

/-- The events of a command's own step are its own. -/
theorem Sending.Step.own_self (step : s.Step id g events g' s') : own id events = events := by
  cases step with
  | keep _ _ _ | fail _ _ _ _ | defer _ _ _ _ _ => exact List.filter_cons_of_pos (beq_self_eq_true id)
  | stop _ _ _ | goOn _ _ => rfl

theorem Sending.Step.own_other (step : s.Step id g events g' s') (hne : i ≠ id) : own i events = [] := by
  have hid : ¬(id == i) = true := fun heq => hne (eq_of_beq heq).symm
  cases step with
  | keep _ _ _ | fail _ _ _ _ | defer _ _ _ _ _ => exact List.filter_cons_of_neg hid
  | stop _ _ _ | goOn _ _ => rfl

/-- A command that begins has nothing to tell. -/
theorem Sending.told_of_send {command : Command} {plan : SendPlan} (id : Nat) (h : command.send plan = .ok s) :
    s.Told id [] := by
  have hfresh : s.result? = none := by
    cases hrequest : command.request with
    | error e =>
        rw [Command.send, hrequest] at h
        cases h
    | ok request =>
        rw [Command.send, hrequest] at h
        cases plan with
        | once =>
            cases h
            rfl
        | withRetry delay token =>
            cases h
            rfl
  refine ⟨[], nofun, fun _ => rfl, ?_⟩
  rw [hfresh]
  rfl

namespace Outbox

/-- Where one command goes on and can tell what happened to it, the others can tell what they could before. -/
theorem Told.setSending (ho : o.Told log) (hs : o.sending? id = some s) (hothers : ∀ i, i ≠ id → own i events = [])
    (hs' : s'.Told id (own id (log ++ events))) (gateway : Gateway) :
    ({ o with gateway }.setSending id s').Told (log ++ events) := by
  have hkept : ∀ i, i ≠ id → own i (log ++ events) = own i log := by
    intro i hi
    rw [own_append, hothers i hi, List.append_nil]
  refine ⟨?_, ?_, ?_⟩
  · intro i other hother
    rcases getElem?_set_cases hother with ⟨rfl, hset⟩ | ⟨hi, hold⟩
    · cases hset
      exact hs'
    · rw [hkept i hi]
      exact ho.sendings i other hold
  · intro i e he
    rcases getElem?_set_cases he with ⟨-, hset⟩ | ⟨hi, hold⟩
    · cases hset
    · rw [hkept i hi]
      exact ho.unsent i e hold
  · intro i hi
    have hlength : (o.sendings.set id (.ok s')).length ≤ i := hi
    rw [List.length_set] at hlength
    rw [hkept i (Nat.ne_of_gt (Nat.lt_of_lt_of_le (lt_of_sending? hs) hlength))]
    exact ho.future i hlength

/-- **Every step tells each command what happens to it,** and only that one. -/
theorem Step.told (step : o.Step action events o') (ho : o.Told log) : o'.Told (log ++ events) := by
  cases step with
  | failCommands | pass =>
      rw [List.append_nil]
      exact ⟨ho.sendings, ho.unsent, ho.future⟩
  | @send command plan =>
      rw [List.append_nil]
      refine ⟨?_, ?_, ?_⟩
      · intro id s hs
        rcases getElem?_concat_cases hs with ⟨rfl, hnew⟩ | ⟨-, hold⟩
        · -- its number was one of those to come, so nothing bears it yet
          rw [ho.future _ (Nat.le_refl _)]
          exact Sending.told_of_send _ hnew.symm
        · exact ho.sendings id s hold
      · intro id e he
        rcases getElem?_concat_cases he with ⟨rfl, -⟩ | ⟨-, hold⟩
        · exact ho.future _ (Nat.le_refl _)
        · exact ho.unsent id e hold
      · intro id hid
        have hlength : (o.sendings ++ [command.send plan]).length ≤ id := hid
        rw [List.length_append, List.length_singleton] at hlength
        exact ho.future id (Nat.le_of_succ_le hlength)
  | @own id timer draw s events gateway s' hs hstep =>
      apply ho.setSending hs fun i hi => hstep.own_other hi
      rw [own_append, hstep.own_self]
      exact hstep.told (ho.sendings id s (sending?_eq_some_iff.mp hs))
  | @cancel id s hs =>
      apply ho.setSending hs fun _ _ => rfl
      rw [List.append_nil]
      exact ho.sendings id s (sending?_eq_some_iff.mp hs)

end Outbox

end Commands

/-! ## Beginnings -/

/-- What stays of a command from its beginning: its request, and whether it is sent only once. -/
def Sending.order (s : Sending) : CommandRequest × Bool := (s.request, s.isOnce)

/-- The commands of an outbox are those that were begun, with the requests they made then. -/
def Outbox.Begun (commands : List (Command × SendPlan)) (o : Outbox) : Prop :=
  o.sendings.map (·.map Sending.order) = commands.map fun entry => (entry.1.send entry.2).map Sending.order

section Beginnings

variable {o o' : Outbox} {g g' : Gateway} {s s' : Sending} {id : Nat} {action : OutboxAction}
variable {events : List OutboxEvent} {commands : List (Command × SendPlan)}

theorem Sending.Becomes.order_eq {result : Option (Except ClientError Unit)} (h : s.Becomes s' result) :
    s'.order = s.order := by
  rw [order, order, h.request, h.isOnce]

theorem Sending.Step.order_eq (step : s.Step id g events g' s') : s'.order = s.order := by
  cases step with
  | keep _ _ hs' | fail _ _ _ hs' | defer _ _ _ _ hs' | stop _ _ hs' | goOn _ hs' => exact hs'.order_eq

namespace Outbox

theorem Begun.length_eq (ho : o.Begun commands) : commands.length = o.sendings.length := by
  have hlength := congrArg List.length ho
  rw [List.length_map, List.length_map] at hlength
  exact hlength.symm

theorem Begun.setSending (ho : o.Begun commands) (hs : o.sending? id = some s) (horder : s'.order = s.order) :
    (o.setSending id s').Begun commands := by
  have hlt : id < (o.sendings.map (·.map Sending.order)).length := by
    rw [List.length_map]
    exact lt_of_sending? hs
  have hplace : o.sendings[id]? = some (.ok s) := sending?_eq_some_iff.mp hs
  have hsame : Except.map Sending.order (.ok s') = (o.sendings.map (·.map Sending.order))[id] := by
    rw [List.getElem_map, (List.getElem?_eq_some_iff.mp hplace).2]
    exact congrArg Except.ok horder
  show (o.sendings.set id (.ok s')).map (·.map Sending.order) = _
  rw [List.map_set, hsame, List.set_getElem_self]
  exact ho

/-- **Every step leaves the requests as they were made.** -/
theorem Step.begun (step : o.Step action events o') (ho : o.Begun commands) :
    o'.Begun (commands ++ action.begun?.toList) := by
  cases step with
  | @send command plan =>
      show (o.sendings ++ [command.send plan]).map _ = (commands ++ [(command, plan)]).map _
      rw [List.map_append, List.map_append, ho]
      rfl
  | own hs hstep =>
      simp only [OutboxAction.begun?, Option.toList, List.append_nil]
      exact Begun.setSending (o := { o with gateway := _ }) ho hs hstep.order_eq
  | cancel hs =>
      simp only [OutboxAction.begun?, Option.toList, List.append_nil]
      exact ho.setSending hs rfl
  | failCommands | pass =>
      simp only [OutboxAction.begun?, Option.toList, List.append_nil]
      exact ho

end Outbox

end Beginnings

end JobWorker
