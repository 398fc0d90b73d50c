import JobWorker.Proofs.Outbox.Account
import JobWorker.Proofs.Outbox.Alone

/-!
# `JobWorker.Proofs.Outbox` — commands are recorded at most once

Commands of any number are sent to one gateway side by side, once or with retries, while failures are scripted and tokens
fire. However their steps come between each other, each command that succeeds is recorded once, with the request that it
made when it began, and any other is not recorded at all. A command that is left alone meets the pending failures up to
the first that is not of the passing kind.

## Contents
- **Requests.** `Command.request_eq_error_iff`.
- **Single commands.** `Sending.Told.kept_eq`, `Sending.Told.request_eq`, `Outbox.place_of_begun`.
- **Runs.** `Outbox.Kept`, `Outbox.run_kept`.
- **The law.** `Outbox.run_records`.
-/

namespace JobWorker

open OutboxLog

/-! ## Requests -/

/-- The only commands that make no request are business errors without a code. -/
theorem Command.request_eq_error_iff {command : Command} {e : ClientError} :
    command.request = .error e ↔
      ∃ key message vars, command = .throwError key "" message vars ∧ e = .setting .noErrorCode := by
  constructor
  · intro h
    cases command with
    | complete key vars => cases h
    | fail key retries message backoff vars => cases h
    | _ key code message vars =>
        unfold request at h
        dsimp only at h
        split at h
        · rename_i hempty
          cases h
          have hcode : code = "" := String.isEmpty_iff.mp hempty
          exact ⟨key, message, vars, hcode ▸ rfl, rfl⟩
        · cases h
  · rintro ⟨key, message, vars, rfl, rfl⟩
    rfl

/-! ## Single commands -/

section Single

variable {s : Sending} {id : Nat} {log : List OutboxEvent} {passed : List Status} {request : CommandRequest}

theorem kept_refusals (id : Nat) (request : CommandRequest) (passed : List Status) :
    kept (passed.map (.refused id request)) = [] := by
  rw [kept, List.filterMap_eq_nil_iff]
  intro event hmem
  obtain ⟨status, -, rfl⟩ := List.mem_map.mp hmem
  rfl

/-- A command that succeeded was kept once, and any other was not. -/
theorem Sending.Told.kept_eq (hs : s.Told id log) :
    (s.result? = some (.ok ()) → kept log = [s.request]) ∧ (s.result? ≠ some (.ok ()) → kept log = []) := by
  obtain ⟨passed, -, -, htold⟩ := hs
  cases hresult : s.result? with
  | none =>
      rw [hresult] at htold
      subst htold
      exact ⟨nofun, fun _ => kept_refusals id s.request passed⟩
  | some result =>
      rw [hresult] at htold
      cases result with
      | ok value =>
          have hlog : log = passed.map (.refused id s.request) ++ [.kept id s.request] := htold
          rw [hlog, kept_append, kept_refusals]
          exact ⟨fun _ => rfl, fun hne => absurd rfl hne⟩
      | error e =>
          refine ⟨nofun, fun _ => ?_⟩
          rcases htold with ⟨-, -, rfl⟩ | ⟨status, -, -, rfl⟩
          · exact kept_refusals id s.request passed
          · rw [kept_append, kept_refusals]
            rfl

/-- All attempts at a command carry its request, and one that is sent only once makes at most one. -/
theorem Sending.Told.request_eq (hs : s.Told id log) :
    (∀ event ∈ log, event.request = s.request) ∧ (s.isOnce = true → log.length ≤ 1) := by
  obtain ⟨passed, -, honce, htold⟩ := hs
  have hpassed : ∀ event ∈ passed.map (OutboxEvent.refused id s.request), event.request = s.request := by
    intro event hmem
    obtain ⟨status, -, rfl⟩ := List.mem_map.mp hmem
    rfl
  have hmore : ∀ last : OutboxEvent, last.request = s.request →
      (∀ event ∈ passed.map (OutboxEvent.refused id s.request) ++ [last], event.request = s.request) ∧
        (s.isOnce = true → (passed.map (OutboxEvent.refused id s.request) ++ [last]).length ≤ 1) := by
    intro last hlast
    refine ⟨fun event hmem => ?_, fun h => ?_⟩
    · rcases List.mem_append.mp hmem with hold | hnew
      · exact hpassed event hold
      · rw [List.mem_singleton.mp hnew]
        exact hlast
    · rw [honce h]
      exact Nat.le_refl 1
  have hless : s.isOnce = true → (passed.map (OutboxEvent.refused id s.request)).length ≤ 1 := by
    intro h
    rw [honce h]
    exact Nat.zero_le 1
  cases hresult : s.result? with
  | none =>
      rw [hresult] at htold
      subst htold
      exact ⟨hpassed, hless⟩
  | some result =>
      rw [hresult] at htold
      cases result with
      | ok value =>
          have hlog : log = passed.map (.refused id s.request) ++ [.kept id s.request] := htold
          rw [hlog]
          exact hmore _ rfl
      | error e =>
          rcases htold with ⟨-, -, rfl⟩ | ⟨status, -, -, rfl⟩
          · exact ⟨hpassed, hless⟩
          · exact hmore _ rfl

end Single

namespace Outbox

variable {o o' : Outbox} {now : Time} {actions : List OutboxAction} {id : Nat} {command : Command} {plan : SendPlan}
variable {commands : List (Command × SendPlan)}

/-- A command that was begun has its place, with the request that it made then or the error that it has for none. -/
theorem place_of_begun (ho : o.Begun commands) (h : commands[id]? = some (command, plan)) :
    (∀ e, command.request = .error e → o.sendings[id]? = some (.error e)) ∧
      ∀ request, command.request = .ok request → ∃ s, o.sendings[id]? = some (.ok s) ∧ s.request = request ∧
        (plan = .once → s.isOnce = true) := by
  have hplace : o.sendings[id]?.map (·.map Sending.order) = some ((command.send plan).map Sending.order) := by
    rw [← List.getElem?_map, ho, List.getElem?_map, h]
    rfl
  obtain ⟨place, hplace, horder⟩ := Option.map_eq_some_iff.mp hplace
  rw [Command.send] at horder
  refine ⟨fun e he => ?_, fun request hrequest => ?_⟩
  · rw [he] at horder
    cases place with
    | ok s => cases horder
    | error e' =>
        cases horder
        exact hplace
  · rw [hrequest] at horder
    cases place with
    | error e => cases horder
    | ok s =>
        have hs : s.order = Sending.order _ := Except.ok.inj horder
        refine ⟨s, hplace, ?_, ?_⟩
        · cases plan <;> exact congrArg Prod.fst hs
        · rintro rfl
          exact congrArg Prod.snd hs

/-! ## Runs -/

/-- What every action in an outbox keeps: the books, what the commands can tell, and what they were begun with. -/
structure Kept (past : List OutboxAction) (log : List OutboxEvent) (o : Outbox) : Prop where
  accounted : o.gateway.Accounted (past.flatMap (·.failures)) log
  told : o.Told log
  begun : o.Begun (past.filterMap (·.begun?))

theorem Kept.perform {past : List OutboxAction} {log : List OutboxEvent} {action : OutboxAction}
    (ho : Kept past log o) (h : o.perform action = some o') :
    Kept (past ++ [action]) (log ++ events action o) o' := by
  have step := perform_cases h
  refine ⟨?_, step.told ho.told, ?_⟩
  · rw [List.flatMap_append, List.flatMap_singleton]
    exact step.accounted ho.accounted
  · rw [filterMap_concat]
    exact step.begun ho.begun

/-- In an outbox without commands everything is in order. -/
theorem Kept.start : Kept [] [] { now } := by
  have hnone : ∀ (id : Nat) (place : Except ClientError Sending), ({ now } : Outbox).sendings[id]? ≠ some place := by
    intro id place hplace
    cases hplace
  refine ⟨⟨rfl, rfl, rfl, rfl, rfl⟩, ⟨?_, ?_, fun _ _ => rfl⟩, rfl⟩
  · exact fun id s hs => absurd hs (hnone id _)
  · exact fun id e he => absurd he (hnone id _)

/-- Everything stays in order. -/
theorem run_kept (h : run actions { now } = some o) : Kept actions (history actions { now }) o :=
  run_preserves (P := Kept) (fun ho hperform => ho.perform hperform) [] [] Kept.start h

/-! ## The law -/

/-- A command succeeds against pending failures if and only if all of them are of the passing kind. -/
theorem sendOutcome_eq_ok_iff {failures : List Status} :
    sendOutcome failures = .ok () ↔ failures.takeWhile Status.isTransient = failures := by
  rw [sendOutcome]
  constructor
  · intro h
    split at h
    · rename_i hnone
      exact (List.takeWhile_prefix _).eq_of_length_le (List.getElem?_eq_none_iff.mp hnone)
    · cases h
  · intro h
    have hnone : failures[passingCount failures]? = none := by
      rw [passingCount, h]
      exact List.getElem?_eq_none (Nat.le_refl _)
    rw [hnone]

/-- There is one record more where the command succeeds. -/
theorem records_afterSending (request : CommandRequest) (g : Gateway) :
    (g.afterSending request).records =
      g.records + if sendOutcome g.commandFailures matches .ok () then 1 else 0 := by
  have hkeep : (g.keep request).records = g.records + 1 := by
    rw [Gateway.keep_eq]
    cases request with
    | _ r =>
        simp only [Gateway.records, CommandRequest.complete?, CommandRequest.fail?, CommandRequest.throwError?,
          Option.toList, List.append_nil, List.length_append, List.length_singleton]
        omega
  show (if g.commandFailures.length < passingCount g.commandFailures + 1 then g.keep request else g).records = _
  rw [sendOutcome]
  cases hnext : g.commandFailures[passingCount g.commandFailures]? with
  | none =>
      rw [if_pos (Nat.lt_succ_of_le (List.getElem?_eq_none_iff.mp hnext))]
      exact hkeep
  | some status =>
      have hlt := (List.getElem?_eq_some_iff.mp hnext).1
      rw [if_neg (Nat.not_lt.mpr hlt)]
      rfl

/-- **Commands are recorded at most once.** In every outbox that a run reaches, whatever was scripted, sent and cancelled
in whatever order:

* the attempts that were counted are the records and the failures that were used up; these and the pending ones are those
  that were scripted, in order, and the records are the kept requests, in order,
* a command that makes no request, which is a business error without a code, has ended with that error and was never
  attempted,
* all attempts at any other command carried the request that it made when it began; it was kept exactly once if it
  succeeded, and never if it did not; sent only once, it was attempted once at most,
* a command that is now sent with retries and left alone with its token goes on until it has met all pending failures of
  the passing kind that come first, and then one more or none: it ends with that one or succeeds. -/
theorem run_records (h : run actions { now } = some o) :
    let log := history actions { now }
    let commands := actions.filterMap (·.begun?)
    o.gateway.commandAttempts = o.gateway.records + (refused log).length ∧
    refused log ++ o.gateway.commandFailures = actions.flatMap (·.failures) ∧
    (o.gateway.completed = (kept log).filterMap (·.complete?) ∧ o.gateway.failed = (kept log).filterMap (·.fail?) ∧
      o.gateway.thrown = (kept log).filterMap (·.throwError?)) ∧
    (∀ id command plan, commands[id]? = some (command, plan) →
      (∀ key message vars, command = .throwError key "" message vars →
        o.result? id = some (.error (.setting .noErrorCode)) ∧ own id log = []) ∧
      ((∀ key message vars, command ≠ .throwError key "" message vars) →
        ∃ request, command.request = .ok request ∧ (∀ event ∈ own id log, event.request = request) ∧
          (o.result? id = some (.ok ()) → kept (own id log) = [request]) ∧
          (o.result? id ≠ some (.ok ()) → kept (own id log) = []) ∧
          (plan = .once → (own id log).length ≤ 1))) ∧
    (∀ id, commands.length ≤ id → own id log = []) ∧
    ∀ command request delay alone o', command.request = .ok request →
      (∀ action ∈ alone, action.Alone o.sendings.length) →
      run (.send command (.withRetry delay .never) :: alone) o = some o' →
      let id := o.sendings.length
      let failures := o.gateway.commandFailures
      let k := (failures.takeWhile (·.isTransient)).length
      ((o'.result? id).isSome ↔ alone.countP (·.isStep) = 3 * k + 2) ∧
      (o'.result? id = none → ∃ ticks, ∀ timer draw, (run [.pass ticks, .step id timer draw] o').isSome) ∧
      ∀ result, o'.result? id = some result →
        result = (match failures[k]? with
          | none        => .ok ()
          | some status => .error (.rpc status "scripted command failure")) ∧
        (result = .ok () ↔ failures.takeWhile (·.isTransient) = failures) ∧
        o'.gateway.commandAttempts = o.gateway.commandAttempts + (k + 1) ∧
        o'.gateway.commandFailures = failures.drop (min failures.length (k + 1)) ∧
        o'.gateway.records = o.gateway.records + if result matches .ok () then 1 else 0 := by
  obtain ⟨accounted, told, begun⟩ := run_kept h
  refine ⟨accounted.attempts_eq, accounted.failures, ⟨accounted.completed, accounted.failed, accounted.thrown⟩,
    ?_, ?_, ?_⟩
  · intro id command plan hcommand
    obtain ⟨herror, hok⟩ := place_of_begun begun hcommand
    refine ⟨fun key message vars hempty => ?_, fun hsome => ?_⟩
    · have hplace := herror _ (Command.request_eq_error_iff.mpr ⟨key, message, vars, hempty, rfl⟩)
      refine ⟨?_, told.unsent id _ hplace⟩
      rw [result?, hplace]
      rfl
    · obtain ⟨request, hrequest⟩ : ∃ request, command.request = .ok request := by
        cases hrequest : command.request with
        | ok request => exact ⟨request, rfl⟩
        | error e =>
            obtain ⟨key, message, vars, hempty, -⟩ := Command.request_eq_error_iff.mp hrequest
            exact absurd hempty (hsome key message vars)
      obtain ⟨s, hplace, rfl, honce⟩ := hok request hrequest
      have hresult : o.result? id = s.result? := by
        rw [result?, hplace]
        rfl
      have hs := told.sendings id s hplace
      rw [hresult]
      exact ⟨s.request, hrequest, hs.request_eq.1, hs.kept_eq.1, hs.kept_eq.2, fun hplan => hs.request_eq.2 (honce hplan)⟩
  · intro id hid
    refine told.future id ?_
    rw [← begun.length_eq]
    exact hid
  · intro command request delay alone o' hrequest halone hrun
    obtain ⟨v, hv, hrun⟩ := Option.bind_eq_some_iff.mp hrun
    have hlone := (lone_of_send o delay hrequest hv).run halone hrun
    rw [Nat.zero_add] at hlone
    refine ⟨hlone.result?_isSome_iff.2, hlone.goes_on, fun result hresult => ?_⟩
    obtain ⟨rfl, hgateway⟩ := hlone.outcome hresult
    rw [hgateway, records_afterSending]
    exact ⟨rfl, sendOutcome_eq_ok_iff, Gateway.attempts_afterSending request o.gateway, rfl, rfl⟩

/-- Five ticks between attempts. -/
def fiveTicks : RetryDelay := .lookup fun _ => .ofMillis 5

/-- A completion meets a passing failure, and while it waits a report of failure meets another kind; a third command has
no code. The completion is tried again, and a later one is stopped by its token as it waits. Two failures are pending
in the end. -/
def crossing : List OutboxAction :=
  [.failCommands .unavailable 1, .failCommands .internal 1,
    .send (.complete 7 none) (.withRetry fiveTicks .never), .step 0 false 0, .step 0 false 0,
    .send (.fail 8 2 "late" .zero none) .once, .step 1 false 0, .send (.throwError 9 "" "why" none) .once,
    .pass 5, .step 0 false 0, .step 0 false 0, .step 0 false 0,
    .failCommands .resourceExhausted 1, .send (.complete 10 none) (.withRetry fiveTicks .never), .step 3 false 0,
    .step 3 false 0, .cancel 3, .step 3 false 0, .failCommands .unavailable 1, .failCommands .internal 1]

/-- Then another completion is left alone, and goes on for as long as it can. -/
def leftAlone : List OutboxAction :=
  [.step 4 false 0, .step 4 false 0, .pass 5, .step 4 false 0, .step 4 false 0, .step 4 false 0]

/-- Of the first four commands one is recorded, after four attempts and three failures; the last goes past one failure
and ends with the next. -/
theorem records_in_crossing :
    ∃ o, run crossing {} = some o ∧ o.gateway.records = 1 ∧
      o.gateway.commandAttempts = o.gateway.records + (refused (history crossing {})).length ∧
      refused (history crossing {}) = [.unavailable, .internal, .resourceExhausted] ∧
      (∃ request, (Command.complete 7 none).request = .ok request ∧ kept (own 0 (history crossing {})) = [request]) ∧
      o.result? 2 = some (.error (.setting .noErrorCode)) ∧ own 2 (history crossing {}) = [] ∧
      kept (own 3 (history crossing {})) = [] ∧
      ∃ o', run (.send (.complete 11 none) (.withRetry fiveTicks .never) :: leftAlone) o = some o' ∧
        ((o'.result? 4).isSome ↔ leftAlone.countP (·.isStep) = 3 * 1 + 2) ∧
        o'.result? 4 = some (.error (.rpc .internal "scripted command failure")) := by
  obtain ⟨o, hrun⟩ : ∃ o, run crossing {} = some o := ⟨_, rfl⟩
  obtain ⟨hattempts, -, -, hcommands, -, halone⟩ := run_records hrun
  cases hrun
  obtain ⟨request, hrequest, -, hkept, -⟩ := (hcommands 0 _ _ rfl).2 nofun
  obtain ⟨hnone, hown⟩ := (hcommands 2 _ _ rfl).1 9 "why" none rfl
  obtain ⟨-, -, -, -, hlost, -⟩ := (hcommands 3 _ _ rfl).2 nofun
  have hlone : ∀ action ∈ leftAlone, action.Alone 4 := by
    simp [leftAlone, OutboxAction.Alone]
  obtain ⟨hsteps, -⟩ := halone (.complete 11 none) _ fiveTicks leftAlone _ rfl hlone rfl
  exact ⟨_, rfl, rfl, hattempts, rfl, ⟨request, hrequest, hkept rfl⟩, hnone, hown, hlost nofun, _, rfl, hsteps, rfl⟩

end Outbox

end JobWorker
