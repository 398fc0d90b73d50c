import JobWorker.Proofs.Outbox.Step

/-!
# `JobWorker.Proofs.Outbox.Alone` — a command that nothing interferes with

While nothing else happens at the gateway and its token does not fire, a command that is sent with retries meets the
failures that are pending one by one: it goes past those of the passing kind, and ends with the first other one, or is
kept where there is none. Each failure that it goes past takes three steps of its own, a look at the token, an attempt
and a wait, and the end takes two.

## Contents
- **Outcomes.** `passingCount`, `sendOutcome`, `Gateway.charged`, `Gateway.afterSending`.
- **Steps.** `OutboxAction.Alone`, `Outbox.Lone`, `Outbox.Lone.perform`.
- **Runs.** `Outbox.Lone.run`, `Outbox.Lone.result?_isSome_iff`, `Outbox.Lone.goes_on`.
-/

namespace JobWorker

/-! ## Outcomes -/

/-- How many failures of the passing kind come first. -/
def passingCount (failures : List Status) : Nat := (failures.takeWhile Status.isTransient).length

/-- How a command ends against pending failures: with the first that is not of the passing kind, if there is one. -/
def sendOutcome (failures : List Status) : Except ClientError Unit :=
  match failures[passingCount failures]? with
  | none        => .ok ()
  | some status => .error (.rpc status "scripted command failure")

section Outcomes

variable {passed later : List Status} {status : Status}

theorem passingCount_append (h : ∀ status ∈ passed, status.isTransient = true) :
    passingCount (passed ++ later) = passed.length + passingCount later := by
  rw [passingCount, List.takeWhile_append_of_pos h, List.length_append]
  rfl

theorem passingCount_of_passing (h : ∀ status ∈ passed, status.isTransient = true) :
    passingCount passed = passed.length := by
  have happend : passingCount (passed ++ []) = passed.length + 0 := passingCount_append h
  rwa [List.append_nil] at happend

theorem passingCount_of_final (h : status.isTransient = false) : passingCount (status :: later) = 0 := by
  rw [passingCount, List.takeWhile_cons_of_neg (by rw [h]; exact Bool.false_ne_true)]
  rfl

theorem sendOutcome_append (h : ∀ status ∈ passed, status.isTransient = true) :
    sendOutcome (passed ++ later) = sendOutcome later := by
  have hlater : (passed ++ later)[passed.length + passingCount later]? = later[passingCount later]? := by
    rw [List.getElem?_append_right (Nat.le_add_right _ _), Nat.add_sub_cancel_left]
  rw [sendOutcome, passingCount_append h, hlater]
  rfl

theorem sendOutcome_of_final (h : status.isTransient = false) :
    sendOutcome (status :: later) = .error (.rpc status "scripted command failure") := by
  rw [sendOutcome, passingCount_of_final h]
  rfl

end Outcomes

namespace Gateway

/-- A gateway after so many attempts, with these failures left. -/
def charged (attempts : Nat) (later : List Status) (g : Gateway) : Gateway :=
  { g with commandAttempts := g.commandAttempts + attempts, commandFailures := later }

/-- A gateway after a command was sent there: with one attempt more than there were passing failures, and with a record
of it where there was no other failure. -/
def afterSending (request : CommandRequest) (g : Gateway) : Gateway :=
  let failures := g.commandFailures
  let count := passingCount failures + 1
  (if failures.length < count then g.keep request else g).charged count (failures.drop (min failures.length count))

/-- All attempts were counted. -/
theorem attempts_afterSending (request : CommandRequest) (g : Gateway) :
    (g.afterSending request).commandAttempts = g.commandAttempts + (passingCount g.commandFailures + 1) := by
  have hkeep : (g.keep request).commandAttempts = g.commandAttempts := by cases request <;> rfl
  unfold afterSending
  dsimp only
  split
  · exact congrArg (· + _) hkeep
  · rfl

end Gateway

/-! ## Steps -/

/-- An action that is a step of one command, or lets time pass. -/
def OutboxAction.Alone (id : Nat) : OutboxAction → Prop
  | .step other _ _ => other = id
  | .pass _         => True
  | _               => False

/-- Whether an action is a command's own step. -/
def OutboxAction.isStep (action : OutboxAction) : Bool := action matches .step _ _ _

namespace Outbox

variable {o o' : Outbox} {g : Gateway} {id steps : Nat} {request : CommandRequest} {action : OutboxAction}
variable {alone : List OutboxAction} {l : RetryLoop Unit} {passed later : List Status}

/-- A command that has gone past some failures, in so many steps, at a gateway where nothing else has happened. -/
def Past (g : Gateway) (request : CommandRequest) (steps : Nat) (l : RetryLoop Unit) (passed later : List Status)
    (g' : Gateway) : Prop :=
  match l.phase with
  | .looking         => steps = 3 * passed.length ∧ g' = g.charged passed.length later
  | .calling         => steps = 3 * passed.length + 1 ∧ g' = g.charged passed.length later
  | .failed          => False
  | .waiting _       => steps + 1 = 3 * passed.length ∧ g' = g.charged passed.length later
  | .finished result => steps = 3 * passingCount g.commandFailures + 2 ∧ result = sendOutcome g.commandFailures ∧
      g' = g.afterSending request

/-- A command that nothing has interfered with, after so many steps of its own. -/
structure Lone (g : Gateway) (id : Nat) (request : CommandRequest) (steps : Nat) (o : Outbox) : Prop where
  past : ∃ l passed later, o.sending? id = some { request, way := .again l } ∧
    g.commandFailures = passed ++ later ∧ (∀ status ∈ passed, status.isTransient = true) ∧
    Past g request steps l passed later o.gateway

/-- A token that does not fire is not found to have fired. -/
theorem finds_never (now : Time) (l : RetryLoop Unit) : Sending.finds now l .never = false := by
  unfold Sending.finds
  split <;> rfl

/-- With no failure left, the next attempt is kept. -/
theorem attempt_charged_nil (hfailures : g.commandFailures = passed)
    (hpassed : ∀ status ∈ passed, status.isTransient = true) :
    (g.charged passed.length []).attempt request = (g.afterSending request, .ok ()) := by
  have hcount : passingCount g.commandFailures = passed.length := by
    rw [hfailures, passingCount_of_passing hpassed]
  have hall : g.commandFailures.length < passed.length + 1 := by
    rw [hfailures]
    exact Nat.lt_succ_self _
  have hnone : g.commandFailures.drop (min g.commandFailures.length (passed.length + 1)) = [] := by
    rw [Nat.min_eq_left (Nat.le_of_lt hall), List.drop_length]
  rw [Gateway.attempt_nil request rfl, Gateway.afterSending, hcount, if_pos hall, hnone]
  cases request <;> rfl

/-- The next failure is met by the next attempt. -/
theorem attempt_charged_cons (n : Nat) (status : Status) (later : List Status) :
    (g.charged n (status :: later)).attempt request =
      (g.charged (n + 1) later, .error (.rpc status "scripted command failure")) :=
  Gateway.attempt_cons request rfl

/-- Where the next failure is not of the passing kind, that is the end. -/
theorem charged_of_final {status : Status} (hfailures : g.commandFailures = passed ++ status :: later)
    (hpassed : ∀ status ∈ passed, status.isTransient = true) (hfinal : status.isTransient = false) :
    g.charged (passed.length + 1) later = g.afterSending request := by
  have hcount : passingCount g.commandFailures = passed.length := by
    rw [hfailures, passingCount_append hpassed, passingCount_of_final hfinal, Nat.add_zero]
  have hlength : g.commandFailures.length = passed.length + 1 + later.length := by
    rw [hfailures, List.length_append, List.length_cons]
    omega
  have hmore : ¬g.commandFailures.length < passed.length + 1 := by omega
  have hlater : g.commandFailures.drop (min g.commandFailures.length (passed.length + 1)) = later := by
    rw [Nat.min_eq_right (Nat.le_of_not_lt hmore), hfailures, List.drop_append, List.drop_of_length_le (Nat.le_succ _),
      Nat.add_sub_cancel_left]
    rfl
  rw [Gateway.afterSending, hcount, if_neg hmore, hlater]

/-- An attempt takes a command past the next failure, or it is the last one. -/
theorem Past.calling {now : Time} {timer : Bool} {draw : Rat} {g' gateway : Gateway} {s' : Sending}
    (hfailures : g.commandFailures = passed ++ later) (hpassed : ∀ status ∈ passed, status.isTransient = true)
    (hphase : l.phase = .calling) (hpast : Past g request steps l passed later g')
    (h : Sending.step now timer draw g' { request, way := .again l } = some (gateway, s')) :
    ∃ l' passed' later', s' = { request, way := .again l' } ∧ g.commandFailures = passed' ++ later' ∧
      (∀ status ∈ passed', status.isTransient = true) ∧ Past g request (steps + 1) l' passed' later' gateway := by
  obtain ⟨delay, state, phase⟩ := l
  cases hphase
  obtain ⟨rfl, rfl⟩ := hpast
  cases later with
  | nil =>
      rw [List.append_nil] at hfailures
      simp only [Sending.step, Sending.stepLoop, attempt_charged_nil hfailures hpassed, RetryLoop.answer, isPassing] at h
      cases h
      refine ⟨{ delay, state, phase := .finished (.ok ()) }, passed, [], rfl, ?_, hpassed, ?_, ?_, rfl⟩
      · rw [hfailures, List.append_nil]
      · rw [hfailures, passingCount_of_passing hpassed]
      · rw [hfailures, ← List.append_nil passed, sendOutcome_append hpassed]
        rfl
  | cons status later =>
      have htransient : (ClientError.rpc status "scripted command failure").isTransient = status.isTransient := rfl
      simp only [Sending.step, Sending.stepLoop, attempt_charged_cons, RetryLoop.answer, isPassing, htransient] at h
      -- a passing failure is gone past; any other is the end
      cases hpassing : status.isTransient with
      | true =>
          rw [hpassing] at h
          cases h
          refine ⟨_, passed ++ [status], later, rfl, ?_, ?_, ?_, ?_⟩
          · rw [hfailures, List.append_assoc]
            rfl
          · intro other hmem
            rcases List.mem_append.mp hmem with hold | hnew
            · exact hpassed other hold
            · rw [List.mem_singleton.mp hnew]
              exact hpassing
          · rw [List.length_append, List.length_singleton]
            omega
          · rw [List.length_append, List.length_singleton]
      | false =>
          rw [hpassing] at h
          cases h
          refine ⟨{ delay, state, phase := .finished _ }, passed, status :: later, rfl, hfailures, hpassed, ?_, ?_, ?_⟩
          · rw [hfailures, passingCount_append hpassed, passingCount_of_final hpassing]
            rfl
          · rw [hfailures, sendOutcome_append hpassed, sendOutcome_of_final hpassing]
          · exact charged_of_final hfailures hpassed hpassing

/-- A step of its own takes a lone command on. -/
theorem Past.step {now : Time} {timer : Bool} {draw : Rat} {g' gateway : Gateway} {s' : Sending}
    (hfailures : g.commandFailures = passed ++ later) (hpassed : ∀ status ∈ passed, status.isTransient = true)
    (hpast : Past g request steps l passed later g')
    (h : Sending.step now timer draw g' { request, way := .again l } = some (gateway, s')) :
    ∃ l' passed' later', s' = { request, way := .again l' } ∧ g.commandFailures = passed' ++ later' ∧
      (∀ status ∈ passed', status.isTransient = true) ∧ Past g request (steps + 1) l' passed' later' gateway := by
  cases hphase : l.phase with
  | calling => exact Past.calling hfailures hpassed hphase hpast h
  | looking =>
      simp only [Past, hphase] at hpast
      obtain ⟨rfl, rfl⟩ := hpast
      simp only [Sending.step, Sending.stepLoop, hphase, finds_never, RetryLoop.look] at h
      cases h
      exact ⟨{ l with phase := .calling }, passed, later, rfl, hfailures, hpassed, rfl, rfl⟩
  | waiting due =>
      simp only [Past, hphase] at hpast
      obtain ⟨hsteps, rfl⟩ := hpast
      simp only [Sending.step, Sending.stepLoop, hphase, Token.isFired, RetryLoop.wake, Bool.false_and,
        Bool.false_eq_true, if_false] at h
      split at h
      · cases h
        exact ⟨{ l with phase := .looking }, passed, later, rfl, hfailures, hpassed, hsteps, rfl⟩
      · cases h
  | failed =>
      simp only [Past, hphase] at hpast
  | finished result =>
      simp only [Sending.step, Sending.stepLoop, hphase] at h
      cases h

/-- **Alone, a command goes on past failure after failure.** -/
theorem Lone.perform (ho : Lone g id request steps o) (halone : action.Alone id) (h : o.perform action = some o') :
    Lone g id request (steps + if action.isStep then 1 else 0) o' := by
  obtain ⟨l, passed, later, hs, hfailures, hpassed, hpast⟩ := ho.past
  cases action with
  | step other timer draw =>
      cases halone
      obtain ⟨s, hs', h⟩ := Option.bind_eq_some_iff.mp h
      cases hs.symm.trans hs'
      obtain ⟨⟨gateway, s'⟩, hstep, h⟩ := Option.bind_eq_some_iff.mp h
      cases h
      obtain ⟨l', passed', later', rfl, hfailures', hpassed', hpast'⟩ := Past.step hfailures hpassed hpast hstep
      exact ⟨l', passed', later', sending?_setSending (lt_of_sending? hs), hfailures', hpassed', hpast'⟩
  | pass ticks =>
      cases h
      exact ⟨l, passed, later, hs, hfailures, hpassed, hpast⟩
  | failCommands status times | send command plan | cancel other => cases halone

/-! ## Runs -/

/-- So it does in a whole run. -/
theorem Lone.run (ho : Lone g id request steps o) (halone : ∀ action ∈ alone, action.Alone id)
    (h : run alone o = some o') : Lone g id request (steps + alone.countP OutboxAction.isStep) o' := by
  induction alone generalizing steps o with
  | nil =>
      cases h
      exact ho
  | cons action alone ih =>
      obtain ⟨v, hv, h⟩ := Option.bind_eq_some_iff.mp h
      have hrest := ih (ho.perform (halone action List.mem_cons_self) hv)
        (fun other hmem => halone other (List.mem_cons_of_mem _ hmem)) h
      rw [List.countP_cons, Nat.add_comm (List.countP OutboxAction.isStep alone)]
      rwa [Nat.add_assoc] at hrest

/-- A command that is begun at an outbox has taken no step. -/
theorem lone_of_send {command : Command} (o : Outbox) (delay : RetryDelay) (hrequest : command.request = .ok request)
    (h : o.perform (.send command (.withRetry delay .never)) = some o') :
    Lone o.gateway o.sendings.length request 0 o' := by
  cases h
  have hsend : command.send (.withRetry delay .never) = .ok { request, way := .again { delay } } := by
    rw [Command.send, hrequest]
    rfl
  refine ⟨{ delay }, [], o.gateway.commandFailures, ?_, rfl, nofun, rfl, rfl⟩
  rw [sending?_eq_some_iff, ← hsend]
  exact List.getElem?_concat_length

/-- The result of a command that is sent again and again. -/
theorem result?_eq_of_again (hs : o.sending? id = some { request, way := .again l }) :
    o.result? id = match l.phase with
      | .finished result => some result
      | _                => none := by
  rw [result?, sending?_eq_some_iff.mp hs]
  obtain ⟨delay, state, phase⟩ := l
  cases phase <;> rfl

/-- It has ended if and only if it has taken all its steps, three for each passing failure and two for the end. -/
theorem Lone.result?_isSome_iff (ho : Lone g id request steps o) :
    steps ≤ 3 * passingCount g.commandFailures + 2 ∧
      ((o.result? id).isSome ↔ steps = 3 * passingCount g.commandFailures + 2) := by
  obtain ⟨l, passed, later, hs, hfailures, hpassed, hpast⟩ := ho.past
  have hcount : passed.length ≤ passingCount g.commandFailures := by
    rw [hfailures, passingCount_append hpassed]
    exact Nat.le_add_right _ _
  rw [result?_eq_of_again hs]
  cases hphase : l.phase with
  | looking | calling | waiting due =>
      simp only [Past, hphase] at hpast
      obtain ⟨hsteps, -⟩ := hpast
      simp only [Option.isSome_none, Bool.false_eq_true, false_iff]
      omega
  | failed =>
      simp only [Past, hphase] at hpast
  | finished result =>
      simp only [Past, hphase] at hpast
      simp only [Option.isSome_some, true_iff]
      exact ⟨Nat.le_of_eq hpast.1, hpast.1⟩

/-- Then it has the outcome that the failures gave it, and so has the gateway. -/
theorem Lone.outcome {result : Except ClientError Unit} (ho : Lone g id request steps o)
    (hresult : o.result? id = some result) :
    result = sendOutcome g.commandFailures ∧ o.gateway = g.afterSending request := by
  obtain ⟨l, passed, later, hs, -, -, hpast⟩ := ho.past
  rw [result?_eq_of_again hs] at hresult
  cases hphase : l.phase with
  | finished outcome =>
      rw [hphase] at hresult
      cases hresult
      simp only [Past, hphase] at hpast
      exact hpast.2
  | looking | calling | failed | waiting due =>
      rw [hphase] at hresult
      cases hresult

/-- The step of a command at an outbox is possible where that of the command is. -/
theorem perform_step_isSome {timer : Bool} {draw : Rat} {s : Sending} (hs : o.sending? id = some s)
    (hstep : (s.step o.now timer draw o.gateway).isSome) : (o.perform (.step id timer draw)).isSome := by
  obtain ⟨⟨gateway, s'⟩, hstep⟩ := Option.isSome_iff_exists.mp hstep
  simp only [perform, step, hs, hstep, Option.bind_eq_bind, Option.bind_some]
  rfl

/-- Until then its next step is possible, at the latest when its wait is over. -/
theorem Lone.goes_on (ho : Lone g id request steps o) (hresult : o.result? id = none) :
    ∃ ticks, ∀ timer draw, (Outbox.run [.pass ticks, .step id timer draw] o).isSome := by
  obtain ⟨l, passed, later, hs, -, -, hpast⟩ := ho.past
  rw [result?_eq_of_again hs] at hresult
  have hafter : ∀ ticks, (∀ timer draw,
      (Sending.step (o.now + ticks) timer draw o.gateway { request, way := .again l }).isSome) →
      ∀ timer draw, (Outbox.run [.pass ticks, .step id timer draw] o).isSome := by
    intro ticks hstep timer draw
    have hperform := perform_step_isSome (o := { o with now := o.now + ticks }) hs (hstep timer draw)
    obtain ⟨o', ho'⟩ := Option.isSome_iff_exists.mp hperform
    simp only [Outbox.run, Outbox.perform, Option.bind_some] at ho' ⊢
    rw [ho']
    rfl
  cases hphase : l.phase with
  | looking =>
      refine ⟨0, hafter 0 fun timer draw => ?_⟩
      simp only [Sending.step, Sending.stepLoop, hphase, RetryLoop.look]
      rfl
  | calling =>
      refine ⟨0, hafter 0 fun timer draw => ?_⟩
      simp only [Sending.step, Sending.stepLoop, hphase, RetryLoop.answer]
      rfl
  | waiting due =>
      refine ⟨due, hafter due fun timer draw => ?_⟩
      have hrested : due ≤ o.now + due := Nat.le_add_left _ _
      simp only [Sending.step, Sending.stepLoop, hphase, Token.isFired, RetryLoop.wake, Bool.false_and,
        Bool.false_eq_true, if_false, hrested, decide_true, if_true]
      rfl
  | failed =>
      simp only [Past, hphase] at hpast
  | finished result =>
      rw [hphase] at hresult
      cases hresult

end Outbox

end JobWorker
