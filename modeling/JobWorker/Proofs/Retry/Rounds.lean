import JobWorker.Retry

/-!
# `JobWorker.Proofs.Retry.Rounds` — the rounds of a retry loop

What happens in a loop is a row of *rounds*: the operation is called, fails for a passing condition, and the next wait
is found. Each round follows from those before it. `RetryRun.Tells` says for each phase of the loop what its log is,
given its rounds, and every line of `RetryRun.Step` keeps that.

## Contents
- **Events.** `RetryEvent`, `RetryRun.events`, `RetryRun.history`.
- **Steps.** `RetryRun.Step`, `RetryRun.perform_cases`, `RetryRun.run_preserves`.
- **Rounds.** `RetryRound`, `RetryRound.Follows`, `RetryRounds`, `RetryRound.stateAfter`.
- **The log.** `RetryRun.Tells`, `RetryRun.Told`, `RetryRun.Step.told`, `RetryRun.run_told`.
-/

namespace JobWorker

/-! ## Events -/

/-- What happens in a loop: the operation is called, the call comes back, or the next wait is found. -/
inductive RetryEvent (α : Type) where
  | called (time : Time)
  | returned (time : Time) (outcome : Except ClientError α)
  | consulted (draw : Rat) (attempt : Nat) (previous wait : Duration)

namespace RetryRun

variable {α : Type}

/-- The events of one action that leads from `before` to `after`. -/
def events (action : RetryAction α) (before after : RetryRun α) : List (RetryEvent α) :=
  match action, after.loop.phase with
  | .look, .calling    => [.called before.now]
  | .answer outcome, _ => [.returned before.now outcome]
  | .consult draw, _   =>
    let (state, next) := (before.loop.state, after.loop.state)
    [.consulted draw next.attempt state.previous next.previous]
  | _, _ => []

/-- The events of a run, in order. -/
def history : List (RetryAction α) → RetryRun α → List (RetryEvent α)
  | [], _                => []
  | action :: actions, r =>
    match r.perform action with
    | some r' => events action r r' ++ history actions r'
    | none    => []

/-! ## Steps -/

variable {r r' : RetryRun α} {action : RetryAction α} {actions : List (RetryAction α)}

/-- The run with its loop in another phase. -/
def turn (phase : RetryPhase α) (r : RetryRun α) : RetryRun α := { r with loop := { r.loop with phase } }

/-- A loop that waits or is about to look at its token. -/
def Idle (r : RetryRun α) : Prop := r.loop.phase = .looking ∨ ∃ due, r.loop.phase = .waiting due

/-- What an action makes of a loop, with its events. -/
inductive Step (r : RetryRun α) : List (RetryEvent α) → RetryRun α → Prop where
  | call : r.loop.phase = .looking → r.cancelled = false → Step r [.called r.now] (r.turn .calling)
  | stop : r.Idle → r.cancelled = true → Step r [] (r.turn (.finished (.error .cancelled)))
  | conclude {outcome} : r.loop.phase = .calling → isPassing outcome = false →
      Step r [.returned r.now outcome] (r.turn (.finished outcome))
  | fail {e} : r.loop.phase = .calling → e.isTransient = true →
      Step r [.returned r.now (.error e)] (r.turn .failed)
  | choose {draw state} : r.loop.phase = .failed → state = r.loop.state.next r.loop.delay draw →
      Step r [.consulted draw state.attempt r.loop.state.previous state.previous]
        { r with loop := { r.loop with state, phase := .waiting (Time.after r.now state.previous) } }
  | goOn {due} : r.loop.phase = .waiting due → due ≤ r.now → Step r [] (r.turn .looking)
  | aside {now cancelled} : r.now ≤ now → (r.cancelled = true → cancelled = true) →
      Step r [] { r with now, cancelled }

/-- **Every action makes one of these steps.** -/
theorem perform_cases (h : r.perform action = some r') : r.Step (events action r r') r' := by
  cases action with
  | look =>
      obtain ⟨loop, hlook, rfl⟩ := Option.map_eq_some_iff.mp h
      unfold RetryLoop.look at hlook
      split at hlook
      · rename_i hphase
        cases hlook
        obtain ⟨_, now, cancelled⟩ := r
        cases cancelled with
        | true => exact .stop (.inl hphase) rfl
        | false => exact .call hphase rfl
      · cases hlook
  | answer outcome =>
      obtain ⟨loop, hanswer, rfl⟩ := Option.map_eq_some_iff.mp h
      unfold RetryLoop.answer at hanswer
      split at hanswer
      · rename_i hphase
        cases hanswer
        cases hpassing : isPassing outcome with
        | false => exact .conclude hphase hpassing
        | true =>
            cases outcome with
            | ok value => cases hpassing
            | error e => exact .fail hphase hpassing
      · cases hanswer
  | consult draw =>
      obtain ⟨loop, hconsult, rfl⟩ := Option.map_eq_some_iff.mp h
      unfold RetryLoop.consult at hconsult
      split at hconsult
      · rename_i hphase
        cases hconsult
        exact .choose hphase rfl
      · cases hconsult
  | wake timer =>
      obtain ⟨loop, hwake, rfl⟩ := Option.map_eq_some_iff.mp h
      unfold RetryLoop.wake at hwake
      split at hwake
      · rename_i due hphase
        dsimp only at hwake
        split at hwake
        · rename_i hfired
          cases hwake
          exact .stop (.inr ⟨due, hphase⟩) (Bool.and_eq_true_iff.mp hfired).1
        split at hwake
        · rename_i hrested
          cases hwake
          exact .goOn hphase (of_decide_eq_true hrested)
        · cases hwake
      · cases hwake
  | cancel =>
      cases h
      exact .aside (Nat.le_refl _) fun _ => rfl
  | pass ticks =>
      cases h
      exact .aside (Nat.le_add_right _ _) id

/-- What each step keeps, with the events so far as part of the state, a run keeps. -/
theorem run_preserves {P : List (RetryEvent α) → RetryRun α → Prop}
    (step : ∀ {log r events r'}, P log r → Step r events r' → P (log ++ events) r')
    (log : List (RetryEvent α)) (hP : P log r) (h : run actions r = some r') : P (log ++ history actions r) r' := by
  induction actions generalizing log r with
  | nil =>
      cases h
      rw [history, List.append_nil]
      exact hP
  | cons action actions ih =>
      obtain ⟨v, hv, h⟩ := Option.bind_eq_some_iff.mp h
      rw [history, hv]
      show P (log ++ (events action r v ++ history actions v)) r'
      rw [← List.append_assoc]
      exact ih _ (step hP (perform_cases hv)) h

end RetryRun

/-! ## Rounds -/

/-- One round: when the operation was called and came back, with which error, and how the wait after it was found. -/
structure RetryRound where
  called : Time
  returned : Time
  error : ClientError
  draw : Rat
  attempt : Nat
  previous : Duration
  wait : Duration

namespace RetryRound

variable {delay : RetryDelay} {rounds : List RetryRound} {round : RetryRound} {time later : Time}

/-- The events of a round. -/
def events {α : Type} (round : RetryRound) : List (RetryEvent α) :=
  [.called round.called, .returned round.returned (.error round.error),
    .consulted round.draw round.attempt round.previous round.wait]

/-- The wait that the next one builds on. -/
def lastWait (rounds : List RetryRound) : Duration := (rounds.getLast?.map (·.wait)).getD .zero

/-- What the loop remembers after some rounds. -/
def stateAfter (rounds : List RetryRound) : RetryState :=
  { attempt := min rounds.length maxAttempt, previous := lastWait rounds }

/-- Whether the wait after the last round is over at a tick: its timer has run out, which took all of it, as long as it
is within the range of the clock. -/
def Rested (rounds : List RetryRound) (time : Time) : Prop :=
  ∀ last, rounds.getLast? = some last → Time.after last.returned last.wait ≤ time ∧
    (last.wait.secs ≤ maxSigned64 → last.wait.nanos ≤ (time - last.returned) * nanosPerMilli)

/-- How a round follows from those before it. -/
structure Follows (delay : RetryDelay) (before : List RetryRound) (round : RetryRound) : Prop where
  rested : Rested before round.called
  returned : round.called ≤ round.returned
  passing : ∃ message, round.error = .rpc .resourceExhausted message ∨ round.error = .rpc .unavailable message
  attempt : round.attempt = min (before.length + 1) maxAttempt
  previous : round.previous = lastWait before
  wait : round.wait = delay.delayFor round.draw round.attempt round.previous

theorem rested_nil : Rested [] time := by
  intro last hlast
  cases hlast

theorem rested_of_last (hlast : ∀ last, rounds.getLast? = some last → Time.after last.returned last.wait ≤ time) :
    Rested rounds time := by
  intro last hmem
  exact ⟨hlast last hmem, fun hsecs => Time.nanos_le_of_after_le hsecs (hlast last hmem)⟩

theorem Rested.mono (h : Rested rounds time) (hle : time ≤ later) : Rested rounds later :=
  rested_of_last fun last hmem => Nat.le_trans (h last hmem).1 hle

theorem lastWait_concat : lastWait (rounds ++ [round]) = round.wait := by
  rw [lastWait, List.getLast?_concat]
  rfl

/-- The next round leads to the next state. -/
theorem stateAfter_concat (delay : RetryDelay) (rounds : List RetryRound) (round : RetryRound) (draw : Rat) :
    let state := (stateAfter rounds).next delay draw
    state.attempt = min (rounds.length + 1) maxAttempt ∧
      state.previous = delay.delayFor draw state.attempt (lastWait rounds) ∧
      (round.wait = state.previous → stateAfter (rounds ++ [round]) = state) := by
  have hcount : min (min rounds.length maxAttempt + 1) maxAttempt = min (rounds.length + 1) maxAttempt := by omega
  refine ⟨hcount, rfl, fun hwait => ?_⟩
  have hlength : min (rounds ++ [round]).length maxAttempt = min (min rounds.length maxAttempt + 1) maxAttempt := by
    rw [List.length_append, List.length_singleton, hcount]
  rw [stateAfter, lastWait_concat, hwait, hlength]
  rfl

end RetryRound

/-- A row of rounds, each of which follows from those before it. -/
inductive RetryRounds (delay : RetryDelay) : List RetryRound → Prop where
  | none : RetryRounds delay []
  | next {rounds round} : RetryRounds delay rounds → round.Follows delay rounds → RetryRounds delay (rounds ++ [round])

/-! ## The log -/

namespace RetryRun

variable {α : Type} {delay : RetryDelay} {r r' : RetryRun α} {log events : List (RetryEvent α)}
variable {actions : List (RetryAction α)} {rounds : List RetryRound}

/-- What the log of a loop is after some rounds, phase by phase. Past the rounds there is at most one call more. A loop
that has finished returned the outcome of that call as it was, or it was cancelled and made none. -/
def Tells (rounds : List RetryRound) (log : List (RetryEvent α)) (r : RetryRun α) : Prop :=
  match r.loop.phase with
  | .looking => log = rounds.flatMap (·.events) ∧ RetryRound.Rested rounds r.now
  | .calling => ∃ called, log = rounds.flatMap (·.events) ++ [.called called] ∧ RetryRound.Rested rounds called ∧
      called ≤ r.now
  | .failed => ∃ called returned e, log = rounds.flatMap (·.events) ++ [.called called, .returned returned (.error e)] ∧
      RetryRound.Rested rounds called ∧ called ≤ returned ∧ returned ≤ r.now ∧ e.isTransient = true
  | .waiting due => log = rounds.flatMap (·.events) ∧ ∃ last, rounds.getLast? = some last ∧
      Time.after last.returned last.wait ≤ due
  | .finished result =>
      (∃ called returned, log = rounds.flatMap (·.events) ++ [.called called, .returned returned result] ∧
        RetryRound.Rested rounds called ∧ called ≤ returned ∧ isPassing result = false) ∨
      (log = rounds.flatMap (·.events) ∧ result = .error .cancelled ∧ r.cancelled = true)

/-- The log of a loop tells of rounds, and the loop remembers them. -/
structure Told (delay : RetryDelay) (log : List (RetryEvent α)) (r : RetryRun α) : Prop where
  delay_eq : r.loop.delay = delay
  rounds : ∃ rounds, RetryRounds delay rounds ∧ r.loop.state = RetryRound.stateAfter rounds ∧ r.Tells rounds log

/-- As time passes or the token fires, the log stays what it is. -/
theorem Tells.aside {now : Time} {cancelled : Bool} (ht : r.Tells rounds log) (hnow : r.now ≤ now)
    (hcancelled : r.cancelled = true → cancelled = true) :
    ({ r with now, cancelled } : RetryRun α).Tells rounds log := by
  unfold Tells at ht ⊢
  dsimp only
  cases hphase : r.loop.phase with
  | looking =>
      rw [hphase] at ht
      exact ⟨ht.1, ht.2.mono hnow⟩
  | calling =>
      rw [hphase] at ht
      obtain ⟨called, hlog, hrested, hle⟩ := ht
      exact ⟨called, hlog, hrested, Nat.le_trans hle hnow⟩
  | failed =>
      rw [hphase] at ht
      obtain ⟨called, returned, e, hlog, hrested, hcalled, hreturned, he⟩ := ht
      exact ⟨called, returned, e, hlog, hrested, hcalled, Nat.le_trans hreturned hnow, he⟩
  | waiting due =>
      rw [hphase] at ht
      exact ht
  | finished result =>
      rw [hphase] at ht
      refine ht.imp_right ?_
      rintro ⟨hlog, hresult, hfired⟩
      exact ⟨hlog, hresult, hcancelled hfired⟩

/-- **Every step of a loop keeps its rounds;** where a wait is found, there is one more. -/
theorem Step.told (step : r.Step events r') (hr : r.Told delay log) : r'.Told delay (log ++ events) := by
  obtain ⟨hdelay, rounds, hrounds, hstate, ht⟩ := hr
  unfold Tells at ht
  cases step with
  | call hphase _ =>
      rw [hphase] at ht
      obtain ⟨rfl, hrested⟩ := ht
      exact ⟨hdelay, rounds, hrounds, hstate, r.now, rfl, hrested, Nat.le_refl _⟩
  | stop hidle hcancelled =>
      rw [List.append_nil]
      refine ⟨hdelay, rounds, hrounds, hstate, .inr ⟨?_, rfl, hcancelled⟩⟩
      rcases hidle with hphase | ⟨due, hphase⟩
      · rw [hphase] at ht
        exact ht.1
      · rw [hphase] at ht
        exact ht.1
  | conclude hphase hfinal =>
      rw [hphase] at ht
      obtain ⟨called, rfl, hrested, hle⟩ := ht
      refine ⟨hdelay, rounds, hrounds, hstate, .inl ⟨called, r.now, ?_, hrested, hle, hfinal⟩⟩
      rw [List.append_assoc]
      rfl
  | @fail e hphase he =>
      rw [hphase] at ht
      obtain ⟨called, rfl, hrested, hle⟩ := ht
      refine ⟨hdelay, rounds, hrounds, hstate, called, r.now, e, ?_, hrested, hle, Nat.le_refl _, he⟩
      rw [List.append_assoc]
      rfl
  | @choose draw state hphase hnext =>
      rw [hphase] at ht
      obtain ⟨called, returned, e, rfl, hrested, hcalled, hreturned, he⟩ := ht
      rw [hdelay, hstate] at hnext
      have hprevious : r.loop.state.previous = RetryRound.lastWait rounds := by rw [hstate]; rfl
      let round : RetryRound :=
        { called, returned, error := e, draw, attempt := state.attempt, previous := r.loop.state.previous,
          wait := state.previous }
      obtain ⟨hattempt, hwait, hafter⟩ := RetryRound.stateAfter_concat delay rounds round draw
      rw [← hnext] at hattempt hwait hafter
      have hfollows : round.Follows delay rounds :=
        ⟨hrested, hcalled, ClientError.isTransient_iff.mp he, hattempt, hprevious,
          hwait.trans (congrArg _ hprevious.symm)⟩
      refine ⟨hdelay, rounds ++ [round], hrounds.next hfollows, (hafter rfl).symm, ?_, round, ?_, ?_⟩
      · rw [List.flatMap_append, List.flatMap_singleton, List.append_assoc]
        rfl
      · exact List.getLast?_concat
      · exact Time.after_le_after _ hreturned
  | goOn hphase hdue =>
      rw [hphase] at ht
      obtain ⟨rfl, last, hlast, hle⟩ := ht
      rw [List.append_nil]
      refine ⟨hdelay, rounds, hrounds, hstate, rfl, RetryRound.rested_of_last ?_⟩
      intro other hother
      cases hlast.symm.trans hother
      exact Nat.le_trans hle hdue
  | aside hnow hcancelled =>
      rw [List.append_nil]
      exact ⟨hdelay, rounds, hrounds, hstate, Tells.aside ht hnow hcancelled⟩

/-- The log of a loop that begins tells of its rounds. -/
theorem run_told {cancelled : Bool} {now : Time} (h : run actions (start delay cancelled now) = some r) :
    r.Told delay (history actions (start delay cancelled now)) :=
  run_preserves (fun hr step => step.told hr) [] ⟨rfl, [], .none, rfl, rfl, RetryRound.rested_nil⟩ h

end RetryRun

end JobWorker
