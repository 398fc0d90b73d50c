import JobWorker.Gateway.Outbox
import JobWorker.Proofs.Places

/-!
# `JobWorker.Proofs.Outbox.Step` — what happens in an outbox

Every attempt at a command comes to one of two things: the request is kept, or it is refused with a scripted status.
These *events* are read off a run, and each bears the number of its command. `Sending.Step` lists what a command's own
step can be, and `Outbox.Step` what an action makes of the outbox, one line each.

## Contents
- **Events.** `OutboxEvent`, `Sending.events`, `Outbox.events`, `Outbox.history`.
- **Views.** `OutboxLog.kept`, `OutboxLog.refused`, `OutboxLog.own`.
- **Commands.** `Sending.Becomes`, `Sending.Step`, `Sending.step_cases`.
- **Outboxes.** `Outbox.sending?_setSending`, `Outbox.Step`, `Outbox.perform_cases`, `Outbox.run_preserves`.
-/

namespace JobWorker

/-! ## Events -/

/-- What an attempt at the command with a number comes to. -/
inductive OutboxEvent where
  | kept (id : Nat) (request : CommandRequest)
  | refused (id : Nat) (request : CommandRequest) (status : Status)

/-- The number of the command. -/
def OutboxEvent.id : OutboxEvent → Nat
  | .kept id _ | .refused id _ _ => id

/-- The request of the attempt. -/
def OutboxEvent.request : OutboxEvent → CommandRequest
  | .kept _ request | .refused _ request _ => request

/-- Whether the next step of a command is an attempt. -/
def Sending.isAttempting (s : Sending) : Bool :=
  match s.way with
  | .once none                       => true
  | .again { phase := .calling, .. } => true
  | _                                => false

/-- The events of a command's next step at this gateway. -/
def Sending.events (id : Nat) (g : Gateway) (s : Sending) : List OutboxEvent :=
  if s.isAttempting then
    match g.commandFailures with
    | []          => [.kept id s.request]
    | status :: _ => [.refused id s.request status]
  else []

namespace Outbox

/-- The events of one action. -/
def events (action : OutboxAction) (before : Outbox) : List OutboxEvent :=
  match action with
  | .step id _ _ => ((before.sending? id).map fun s => s.events id before.gateway).getD []
  | _            => []

/-- The events of a run, in order. -/
def history : List OutboxAction → Outbox → List OutboxEvent
  | [], _                => []
  | action :: actions, o =>
    match o.perform action with
    | some o' => events action o ++ history actions o'
    | none    => []

end Outbox

/-- The failures of commands that an action scripts. -/
def OutboxAction.failures : OutboxAction → List Status
  | .failCommands status times => List.replicate times status
  | _                          => []

/-- The command that an action begins, and how it is to be sent. -/
def OutboxAction.begun? : OutboxAction → Option (Command × SendPlan)
  | .send command plan => some (command, plan)
  | _                  => none

/-! ## Views -/

namespace OutboxLog

variable (id : Nat) (log log' : List OutboxEvent)

/-- The requests that were kept, in order. -/
def kept : List CommandRequest :=
  log.filterMap fun
    | .kept _ request => some request
    | _               => none

/-- The scripted failures that were used up, in order. -/
def refused : List Status :=
  log.filterMap fun
    | .refused _ _ status => some status
    | _                   => none

/-- What happened to one command. -/
def own : List OutboxEvent := log.filter (·.id == id)

@[simp] theorem kept_append : kept (log ++ log') = kept log ++ kept log' := List.filterMap_append

@[simp] theorem refused_append : refused (log ++ log') = refused log ++ refused log' := List.filterMap_append

@[simp] theorem own_append : own id (log ++ log') = own id log ++ own id log' := List.filter_append ..

end OutboxLog

/-! ## Commands -/

theorem Gateway.attempt_nil {g : Gateway} (request : CommandRequest) (h : g.commandFailures = []) :
    g.attempt request = (({ g with commandAttempts := g.commandAttempts + 1 } : Gateway).keep request, .ok ()) := by
  unfold attempt
  dsimp only
  split
  · rfl
  · rename_i heq
    rw [h] at heq
    cases heq

theorem Gateway.attempt_cons {g : Gateway} {status : Status} {later : List Status} (request : CommandRequest)
    (h : g.commandFailures = status :: later) :
    g.attempt request = ({ g with commandAttempts := g.commandAttempts + 1, commandFailures := later },
      .error (.rpc status "scripted command failure")) := by
  unfold attempt
  dsimp only
  split
  · rename_i heq
    rw [h] at heq
    cases heq
  · rename_i heq
    rw [h] at heq
    cases heq
    rfl

namespace Sending

/-- Whether a command is sent only once. -/
def isOnce (s : Sending) : Bool := s.way matches .once _

/-- A command that has become another one: with the same request, sent in the same way, and with this result. -/
structure Becomes (s s' : Sending) (result : Option (Except ClientError Unit)) : Prop where
  request : s'.request = s.request
  isOnce : s'.isOnce = s.isOnce
  result : s'.result? = result

/-- What a command's own step makes of it and of the gateway, with its events. -/
inductive Step (id : Nat) (g : Gateway) (s : Sending) : List OutboxEvent → Gateway → Sending → Prop where
  | keep {s'} : s.result? = none → g.commandFailures = [] → s.Becomes s' (some (.ok ())) →
      Step id g s [.kept id s.request]
        (({ g with commandAttempts := g.commandAttempts + 1 } : Gateway).keep s.request) s'
  | fail {status later s'} : s.result? = none → g.commandFailures = status :: later →
      (s.isOnce = true ∨ status.isTransient = false) →
      s.Becomes s' (some (.error (.rpc status "scripted command failure"))) →
      Step id g s [.refused id s.request status]
        { g with commandAttempts := g.commandAttempts + 1, commandFailures := later } s'
  | defer {status later s'} : s.result? = none → g.commandFailures = status :: later → s.isOnce = false →
      status.isTransient = true → s.Becomes s' none →
      Step id g s [.refused id s.request status]
        { g with commandAttempts := g.commandAttempts + 1, commandFailures := later } s'
  | stop {s'} : s.result? = none → s.isOnce = false → s.Becomes s' (some (.error .cancelled)) → Step id g s [] g s'
  | goOn {s'} : s.result? = none → s.Becomes s' none → Step id g s [] g s'

variable {now : Time} {timer : Bool} {draw : Rat} {g g' : Gateway} {s s' : Sending} {l : RetryLoop Unit}

theorem events_nil (id : Nat) (hattempting : s.isAttempting = true) (h : g.commandFailures = []) :
    s.events id g = [.kept id s.request] := by
  rw [events, if_pos hattempting, h]

theorem events_cons {status : Status} {later : List Status} (id : Nat) (hattempting : s.isAttempting = true)
    (h : g.commandFailures = status :: later) : s.events id g = [.refused id s.request status] := by
  rw [events, if_pos hattempting, h]

/-- The attempt of a command that is sent once. -/
theorem step_once (id : Nat) (hway : s.way = .once none) (h : s.step now timer draw g = some (g', s')) :
    s.Step id g (s.events id g) g' s' := by
  obtain ⟨request, token, way⟩ := s
  cases hway
  cases hfailures : g.commandFailures with
  | nil =>
      simp only [step, g.attempt_nil request hfailures] at h
      cases h
      rw [events_nil id rfl hfailures]
      exact .keep rfl hfailures ⟨rfl, rfl, rfl⟩
  | cons status later =>
      simp only [step, g.attempt_cons request hfailures] at h
      cases h
      rw [events_cons id rfl hfailures]
      exact .fail rfl hfailures (.inl rfl) ⟨rfl, rfl, rfl⟩

/-- An attempt of a command that is sent again and again. -/
theorem step_calling (id : Nat) (hway : s.way = .again l) (hphase : l.phase = .calling)
    (h : s.step now timer draw g = some (g', s')) : s.Step id g (s.events id g) g' s' := by
  obtain ⟨request, token, way⟩ := s
  obtain ⟨delay, state, phase⟩ := l
  cases hway
  cases hphase
  cases hfailures : g.commandFailures with
  | nil =>
      simp only [step, stepLoop, g.attempt_nil request hfailures, RetryLoop.answer, isPassing] at h
      cases h
      rw [events_nil id rfl hfailures]
      exact .keep rfl hfailures ⟨rfl, rfl, rfl⟩
  | cons status later =>
      have htransient : (ClientError.rpc status "scripted command failure").isTransient = status.isTransient := rfl
      simp only [step, stepLoop, g.attempt_cons request hfailures, RetryLoop.answer, isPassing, htransient] at h
      rw [events_cons id rfl hfailures]
      cases hpassing : status.isTransient with
      | true =>
          rw [hpassing] at h
          cases h
          exact .defer rfl hfailures rfl hpassing ⟨rfl, rfl, rfl⟩
      | false =>
          rw [hpassing] at h
          cases h
          exact .fail rfl hfailures (.inr hpassing) ⟨rfl, rfl, rfl⟩

/-- **Every own step of a command is one of these,** with the events that it has. -/
theorem step_cases (id : Nat) (h : s.step now timer draw g = some (g', s')) : s.Step id g (s.events id g) g' s' := by
  obtain ⟨request, token, way⟩ := s
  cases way with
  | once outcome =>
      cases outcome with
      | some outcome => cases h
      | none => exact step_once id rfl h
  | again l =>
      obtain ⟨delay, state, phase⟩ := l
      cases phase with
      | looking =>
          cases h
          show Sending.Step id g _ [] g _
          cases hfound : finds now { delay, state, phase := .looking } token with
          | true => exact .stop rfl rfl ⟨rfl, rfl, rfl⟩
          | false => exact .goOn rfl ⟨rfl, rfl, rfl⟩
      | calling => exact step_calling id rfl rfl h
      | failed =>
          cases h
          exact .goOn rfl ⟨rfl, rfl, rfl⟩
      | waiting due =>
          simp only [step, stepLoop, RetryLoop.wake] at h
          show Sending.Step id g _ [] g' s'
          split at h
          · cases h
            exact .stop rfl rfl ⟨rfl, rfl, rfl⟩
          split at h
          · cases h
            exact .goOn rfl ⟨rfl, rfl, rfl⟩
          · cases h
      | finished result => cases h

end Sending

/-! ## Outboxes -/

namespace Outbox

variable {o o' : Outbox} {id i : Nat} {s s' : Sending} {action : OutboxAction} {actions : List OutboxAction}

theorem sending?_eq_some_iff : o.sending? id = some s ↔ o.sendings[id]? = some (.ok s) := by
  rw [sending?, Option.bind_eq_some_iff]
  constructor
  · rintro ⟨place, hplace, hs⟩
    cases place with
    | ok t =>
        cases hs
        exact hplace
    | error e => cases hs
  · intro h
    exact ⟨.ok s, h, rfl⟩

theorem lt_of_sending? (h : o.sending? id = some s) : id < o.sendings.length :=
  (List.getElem?_eq_some_iff.mp (sending?_eq_some_iff.mp h)).1

/-- The command that was set has its place. -/
theorem sending?_setSending (h : id < o.sendings.length) : (o.setSending id s).sending? id = some s := by
  have hset : (o.sendings.set id (.ok s))[id]? = some (.ok s) := List.getElem?_set_self h
  exact sending?_eq_some_iff.mpr hset

/-- What an action makes of an outbox, with its events. -/
inductive Step (o : Outbox) : OutboxAction → List OutboxEvent → Outbox → Prop where
  | failCommands {status times} : Step o (.failCommands status times) []
      { o with gateway := o.gateway.failCommands status times }
  | send {command plan} : Step o (.send command plan) [] { o with sendings := o.sendings ++ [command.send plan] }
  | own {id timer draw s events gateway s'} : o.sending? id = some s → s.Step id o.gateway events gateway s' →
      Step o (.step id timer draw) events ({ o with gateway }.setSending id s')
  | cancel {id : Nat} {s : Sending} : o.sending? id = some s → Step o (.cancel id) [] (o.setSending id s.cancel)
  | pass {ticks} : Step o (.pass ticks) [] { o with now := o.now + ticks }

/-- **Every action makes one of these steps.** -/
theorem perform_cases (h : o.perform action = some o') : o.Step action (events action o) o' := by
  cases action with
  | failCommands status times =>
      cases h
      exact .failCommands
  | send command plan =>
      cases h
      exact .send
  | step id timer draw =>
      obtain ⟨s, hs, h⟩ := Option.bind_eq_some_iff.mp h
      obtain ⟨⟨gateway, s'⟩, hstep, h⟩ := Option.bind_eq_some_iff.mp h
      cases h
      have hevents : events (.step id timer draw) o = s.events id o.gateway := by
        rw [events, hs]
        rfl
      rw [hevents]
      exact .own hs (Sending.step_cases id hstep)
  | cancel id =>
      obtain ⟨s, hs, h⟩ := Option.map_eq_some_iff.mp h
      cases h
      exact .cancel hs
  | pass ticks =>
      cases h
      exact .pass

/-- What each action keeps, with the actions so far and their events as part of the state, a run keeps. -/
theorem run_preserves {P : List OutboxAction → List OutboxEvent → Outbox → Prop}
    (step : ∀ {past log o action o'}, P past log o → o.perform action = some o' →
      P (past ++ [action]) (log ++ events action o) o')
    (past : List OutboxAction) (log : List OutboxEvent) (hP : P past log o) (h : run actions o = some o') :
    P (past ++ actions) (log ++ history actions o) o' := by
  induction actions generalizing past log o with
  | nil =>
      cases h
      rw [List.append_nil, history, List.append_nil]
      exact hP
  | cons action actions ih =>
      obtain ⟨v, hv, h⟩ := Option.bind_eq_some_iff.mp h
      have hrest := ih _ _ (step hP hv) h
      rw [List.append_assoc, List.append_assoc] at hrest
      rw [history, hv]
      exact hrest

end Outbox

end JobWorker
