import JobWorker.Gateway.Desk
import JobWorker.Proofs.Places
import JobWorker.Proofs.Supply

/-!
# `JobWorker.Proofs.Desk.Step` — what happens at a desk

Three things happen to a call at a desk that others notice: it is recorded, it is refused for a scripted failure, or it
is served a piece of the front batch. These *events* are read off a run, and each bears the number of its call.
`Call.Step` lists what a call's own step can be, and `Desk.Step` what an action makes of the desk, one line each.

## Contents
- **Events.** `DeskEvent`, `Call.events`, `Desk.events`, `Desk.history`.
- **Views.** `DeskLog.recorded`, `DeskLog.refused`, `DeskLog.pieces`, `DeskLog.own`.
- **Calls.** `Call.Step`, `Call.step_cases`.
- **Desks.** `Desk.call?_setCall_cases`, `Desk.Step`, `Desk.perform_cases`, `Desk.run_preserves`.
-/

namespace JobWorker

/-! ## Events -/

/-- What happens to a call with a number: it is recorded, refused with a scripted status, or served a piece of a
scripted batch. -/
inductive DeskEvent where
  | recorded (id : Nat) (request : ActivationRequest)
  | refused (id : Nat) (status : Status)
  | served (id : Nat) (piece : Batch)

/-- The number of the call. -/
def DeskEvent.id : DeskEvent → Nat
  | .recorded id _ | .refused id _ | .served id _ => id

/-- The events of a step that leads from `before` to `after` at this gateway. -/
def Call.events (id : Nat) (g : Gateway) (before after : Call) : List DeskEvent :=
  match before.phase, after.phase with
  | .arriving, _ =>
    .recorded id before.request :: (g.activationFailures.head?.toList.map fun status => .refused id status)
  | _, .answered (.ok (_ :: _)) => g.batches.head?.toList.map fun batch => .served id (batch.take before.wanted)
  | _, _ => []

namespace Desk

/-- The events of one action that leads from `before` to `after`. -/
def events (action : DeskAction) (before after : Desk) : List DeskEvent :=
  match action with
  | .step id _ =>
    match before.call? id, after.call? id with
    | some c, some c' => c.events id before.gateway c'
    | _, _            => []
  | _ => []

/-- The events of a run, in order. -/
def history : List DeskAction → Desk → List DeskEvent
  | [], _                => []
  | action :: actions, d =>
    match d.perform action with
    | some d' => events action d d' ++ history actions d'
    | none    => []

end Desk

/-- The batches that an action scripts. -/
def DeskAction.script : DeskAction → List Batch
  | .store batch => [batch]
  | _            => []

/-- The failures of calls that an action scripts. -/
def DeskAction.failures : DeskAction → List Status
  | .failActivations status times => List.replicate times status
  | _                             => []

/-! ## Views -/

namespace DeskLog

variable (id : Nat) (log log' : List DeskEvent)

/-- The requests that were recorded, in order. -/
def recorded : List ActivationRequest :=
  log.filterMap fun
    | .recorded _ request => some request
    | _                   => none

/-- The scripted failures that were used up, in order. -/
def refused : List Status :=
  log.filterMap fun
    | .refused _ status => some status
    | _                 => none

/-- The pieces of batches that were served, in order, as they were scripted. -/
def pieces : List Batch :=
  log.filterMap fun
    | .served _ piece => some piece
    | _               => none

/-- What happened to one call. -/
def own : List DeskEvent := log.filter (·.id == id)

@[simp] theorem refused_append : refused (log ++ log') = refused log ++ refused log' := List.filterMap_append

@[simp] theorem pieces_append : pieces (log ++ log') = pieces log ++ pieces log' := List.filterMap_append

@[simp] theorem own_append : own id (log ++ log') = own id log ++ own id log' := List.filter_append ..

end DeskLog

/-! ## Calls -/

/-- What is pending after a batch was served, cut where it is too long. -/
def Gateway.rest (n : Nat) (batch : Batch) (later : List Batch) : List Batch :=
  if n < batch.length then batch.drop n :: later else later

theorem Gateway.nextBatch?_nil {g : Gateway} (n : Nat) (name : String) (h : g.batches = []) :
    g.nextBatch? n name = none := by
  rw [nextBatch?, h]

theorem Gateway.nextBatch?_cons {g : Gateway} {batch : Batch} {later : List Batch} (n : Nat) (name : String)
    (h : g.batches = batch :: later) :
    g.nextBatch? n name = some (handTo name (batch.take n), { g with batches := rest n batch later }) := by
  rw [nextBatch?, h]
  rfl

theorem Gateway.accept_nil {g : Gateway} (request : ActivationRequest) (h : g.activationFailures = []) :
    g.accept request = ({ g with requests := g.requests ++ [request] }, .ok ()) := by
  unfold accept
  dsimp only
  split
  · rfl
  · rename_i heq
    rw [h] at heq
    cases heq

theorem Gateway.accept_cons {g : Gateway} {status : Status} {later : List Status} (request : ActivationRequest)
    (h : g.activationFailures = status :: later) :
    g.accept request = ({ g with requests := g.requests ++ [request], activationFailures := later },
      .error (.rpc status "scripted activation failure")) := by
  unfold accept
  dsimp only
  split
  · rename_i heq
    rw [h] at heq
    cases heq
  · rename_i heq
    rw [h] at heq
    cases heq
    rfl

/-- Whether a call looks for a batch in its next step. -/
def Call.Looks (c : Call) : Prop := ∃ seen, c.phase = .looking seen ∨ ∃ due, c.phase = .held seen due

/-- What a call's own step makes of it and of the gateway, with its events. -/
inductive Call.Step (now : Time) (id : Nat) (g : Gateway) (c : Call) : List DeskEvent → Gateway → Call → Prop where
  | record : c.phase = .arriving → g.activationFailures = [] →
      Step now id g c [.recorded id c.request] { g with requests := g.requests ++ [c.request] }
        { c with phase := .accepted }
  | refuse {status later} : c.phase = .arriving → g.activationFailures = status :: later →
      Step now id g c [.recorded id c.request, .refused id status]
        { g with requests := g.requests ++ [c.request], activationFailures := later }
        { c with phase := .answered (.error (.rpc status "scripted activation failure")) }
  | note : c.phase = .accepted → Step now id g c [] g { c with phase := .looking g.pushes }
  | serve {batch later} : c.Looks → g.batches = batch :: later →
      Step now id g c [.served id (batch.take c.wanted)] { g with batches := Gateway.rest c.wanted batch later }
        { c with phase := .answered (.ok [handTo c.request.worker (batch.take c.wanted)]) }
  | hold {seen} : c.phase = .looking seen → g.batches = [] →
      Step now id g c [] g { c with phase := .held seen (Time.after now c.longPoll) }
  | leave {seen due} : c.phase = .held seen due → Step now id g c [] g { c with phase := .answered (.ok []) }

namespace Call

variable {now : Time} {timer : Bool} {g g' : Gateway} {c c' : Call}

/-- A call that looks is served where a batch is pending. -/
theorem Step.ofServe {batch : Batch} {later : List Batch} (id : Nat) (hlooks : c.Looks)
    (hbatches : g.batches = batch :: later) :
    c.Step now id g (c.events id g { c with phase := .answered (.ok [handTo c.request.worker (batch.take c.wanted)]) })
      { g with batches := Gateway.rest c.wanted batch later }
      { c with phase := .answered (.ok [handTo c.request.worker (batch.take c.wanted)]) } := by
  have hevents : c.events id g { c with phase := .answered (.ok [handTo c.request.worker (batch.take c.wanted)]) } =
      [.served id (batch.take c.wanted)] := by
    obtain ⟨seen, hphase | ⟨due, hphase⟩⟩ := hlooks <;> simp only [events, hphase, hbatches] <;> rfl
  rw [hevents]
  exact .serve hlooks hbatches

/-- **Every own step of a call is one of these,** with the events that it has. -/
theorem step_cases (id : Nat) (h : c.step now timer g = some (g', c')) :
    c.Step now id g (c.events id g c') g' c' := by
  obtain ⟨request, phase⟩ := c
  cases phase with
  | arriving =>
      cases hfailures : g.activationFailures with
      | nil =>
          simp only [step, Gateway.accept_nil request hfailures] at h
          cases h
          have hevents : events id g ⟨request, .arriving⟩ ⟨request, .accepted⟩ = [.recorded id request] := by
            simp only [events, hfailures]
            rfl
          rw [hevents]
          exact .record rfl hfailures
      | cons status later =>
          simp only [step, Gateway.accept_cons request hfailures] at h
          cases h
          have hevents : ∀ c', events id g ⟨request, .arriving⟩ c' = [.recorded id request, .refused id status] := by
            intro c'
            simp only [events, hfailures]
            rfl
          rw [hevents]
          exact .refuse rfl hfailures
  | accepted =>
      cases h
      exact .note rfl
  | looking seen =>
      cases hbatches : g.batches with
      | nil =>
          simp only [step, Gateway.nextBatch?_nil _ _ hbatches] at h
          cases h
          exact .hold rfl hbatches
      | cons batch later =>
          simp only [step, Gateway.nextBatch?_cons _ _ hbatches] at h
          cases h
          exact .ofServe id ⟨seen, .inl rfl⟩ hbatches
  | held seen due =>
      simp only [step] at h
      split at h
      · cases h
        exact .leave rfl
      split at h
      · cases hbatches : g.batches with
        | nil =>
            simp only [serve, Gateway.nextBatch?_nil _ _ hbatches] at h
            cases h
            exact .leave rfl
        | cons batch later =>
            simp only [serve, Gateway.nextBatch?_cons _ _ hbatches] at h
            cases h
            exact .ofServe id ⟨seen, .inr ⟨due, rfl⟩⟩ hbatches
      · cases h
  | answered answer => cases h

end Call

/-! ## Desks -/

namespace Desk

variable {d d' : Desk} {id i : Nat} {c : Call} {call : Option Call} {action : DeskAction} {actions : List DeskAction}

theorem call?_eq_some_iff : d.call? id = some c ↔ d.calls[id]? = some (some c) := by
  rw [call?, Option.join_eq_some_iff]

theorem lt_of_call? (h : d.call? id = some c) : id < d.calls.length := by
  exact (List.getElem?_eq_some_iff.mp (call?_eq_some_iff.mp h)).1

/-- The call that was set has its place. -/
theorem call?_setCall_self (h : id < d.calls.length) : (d.setCall id call).call? id = call := by
  rw [call?, setCall, List.getElem?_set_self h]
  rfl

/-- After a place was replaced, a call is the one that was set, or another that was there before. -/
theorem call?_setCall_cases (hid : id < d.calls.length) (h : (d.setCall id call).call? i = some c) :
    i = id ∧ call = some c ∨ i ≠ id ∧ d.call? i = some c := by
  by_cases hi : i = id
  · subst hi
    exact .inl ⟨rfl, (call?_setCall_self hid).symm.trans h⟩
  · refine .inr ⟨hi, ?_⟩
    rwa [call?, setCall, List.getElem?_set_ne (Ne.symm hi)] at h

/-- After a call has begun, a place is the last one, with that call, or another that was there before. -/
theorem place_arrive_cases {request : ActivationRequest} {place : Option Call}
    (h : (d.calls ++ [some { request := request }])[i]? = some place) :
    i = d.calls.length ∧ place = some { request := request } ∨ i < d.calls.length ∧ d.calls[i]? = some place :=
  getElem?_concat_cases h

/-- What an action makes of a desk, with its events. -/
inductive Step (d : Desk) : DeskAction → List DeskEvent → Desk → Prop where
  | store {batch} : Step d (.store batch) []
      { d with gateway := d.gateway.store batch, unannounced := d.unannounced + 1 }
  | announce : d.unannounced ≠ 0 → Step d .announce []
      { d with gateway := d.gateway.announce, unannounced := d.unannounced - 1 }
  | failActivations {status times} : Step d (.failActivations status times) []
      { d with gateway := d.gateway.failActivations status times }
  | aside {action gateway now} : action.script = [] → action.failures = [] → gateway.batches = d.gateway.batches →
      gateway.activationFailures = d.gateway.activationFailures → gateway.requests = d.gateway.requests →
      gateway.pushes = d.gateway.pushes → Step d action [] { d with gateway, now }
  | arrive {request} : Step d (.arrive request) [] { d with calls := d.calls ++ [some { request := request }] }
  | call {id timer c events gateway c'} : d.call? id = some c → c.Step d.now id d.gateway events gateway c' →
      Step d (.step id timer) events ({ d with gateway }.setCall id (some c'))
  | giveUp {id c seen due} : d.call? id = some c → c.phase = .held seen due →
      Step d (.giveUp id) [] (d.setCall id none)

/-- **Every action makes one of these steps.** -/
theorem perform_cases (h : d.perform action = some d') : d.Step action (events action d d') d' := by
  cases action with
  | store batch =>
      cases h
      exact .store
  | announce =>
      simp only [perform] at h
      split at h <;> cases h
      exact .announce ‹_›
  | failActivations status times =>
      cases h
      exact .failActivations
  | failCommands status times | pass ticks =>
      cases h
      exact .aside rfl rfl rfl rfl rfl rfl
  | command request =>
      cases h
      have hkept : ∀ g : Gateway, (g.attempt request).1.batches = g.batches ∧
          (g.attempt request).1.activationFailures = g.activationFailures ∧
          (g.attempt request).1.requests = g.requests ∧ (g.attempt request).1.pushes = g.pushes := by
        intro g
        unfold Gateway.attempt
        cases g.commandFailures with
        | nil => cases request <;> exact ⟨rfl, rfl, rfl, rfl⟩
        | cons status later => exact ⟨rfl, rfl, rfl, rfl⟩
      obtain ⟨hbatches, hfailures, hrequests, hpushes⟩ := hkept d.gateway
      exact .aside rfl rfl hbatches hfailures hrequests hpushes
  | arrive request =>
      cases h
      exact .arrive
  | step id timer =>
      obtain ⟨c, hc, h⟩ := Option.bind_eq_some_iff.mp h
      obtain ⟨⟨gateway, c'⟩, hstep, h⟩ := Option.bind_eq_some_iff.mp h
      cases h
      have hevents : events (.step id timer) d ({ d with gateway }.setCall id (some c')) =
          c.events id d.gateway c' := by
        have hset : ({ d with gateway }.setCall id (some c')).call? id = some c' :=
          call?_setCall_self (d := { d with gateway }) (lt_of_call? hc)
        simp only [events, hc, hset]
      rw [hevents]
      exact .call hc (Call.step_cases id hstep)
  | giveUp id =>
      obtain ⟨c, hc, h⟩ := Option.bind_eq_some_iff.mp h
      cases hp : c.phase <;> simp only [hp] at h <;> cases h
      exact .giveUp hc hp

/-- What each action keeps, with the actions so far and their events as part of the state, a run keeps. -/
theorem run_preserves {P : List DeskAction → List DeskEvent → Desk → Prop}
    (step : ∀ {past log d action d'}, P past log d → d.perform action = some d' →
      P (past ++ [action]) (log ++ events action d d') d')
    (past : List DeskAction) (log : List DeskEvent) (hP : P past log d) (h : run actions d = some d') :
    P (past ++ actions) (log ++ history actions d) d' := by
  induction actions generalizing past log d with
  | nil =>
      cases h
      rw [List.append_nil, history, List.append_nil]
      exact hP
  | cons action actions ih =>
      obtain ⟨v, hv, h⟩ := Option.bind_eq_some_iff.mp h
      have hrest := ih _ _ (step hP hv) h
      rw [List.append_assoc, List.append_assoc] at hrest
      rw [history, hv]
      exact hrest

end Desk

end JobWorker
