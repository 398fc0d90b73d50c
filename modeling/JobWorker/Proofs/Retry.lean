import JobWorker.Proofs.Retry.Rounds

/-!
# `JobWorker.Proofs.Retry` — what a retry loop does

A loop calls its operation for the first time unless its token has fired, and again after each passing failure, when
the whole wait is over and the token has still not fired. The first other outcome is its result. A token that fires
while a call is under way does not touch that call; otherwise it is the end, without a further call, and whichever of
two ends of a wait is noticed first.

## Contents
- **Under a fired token.** `RetryRun.Winding`, `RetryRun.run_cancelled`.
- **At the end.** `RetryRun.run_finished`.
- **What is next.** `RetryRun.Moves`, `RetryRun.moves`.
- **The law.** `RetryRun.run_retries`.
- **Whole runs.** `Retry.run_isRun`, `Retry.run_timer`.
-/

namespace JobWorker

namespace RetryRun

variable {α : Type} {delay : RetryDelay} {cancelled : Bool} {now : Time} {r r₀ r' : RetryRun α}
variable {log events : List (RetryEvent α)} {actions : List (RetryAction α)} {result : Except ClientError α}

/-! ## Under a fired token -/

/-- What holds from a state on whose token has fired. No call is made; only one that was under way can still come back,
and give the result. -/
structure Winding (r₀ : RetryRun α) (log : List (RetryEvent α)) (r : RetryRun α) : Prop where
  cancelled : r.cancelled = true
  calls : ∀ time, .called time ∉ log
  underway : r.loop.phase = .calling → r₀.loop.phase = .calling
  result : ∀ result, r.loop.phase = .finished result → result = .error .cancelled ∨ r₀.loop.phase = .finished result ∨
    r₀.loop.phase = .calling ∧ ∃ time, .returned time result ∈ log

/-- A step to another phase without a call keeps that, if it does not finish the loop. -/
theorem Winding.turn (hr : r₀.Winding log r) (hcancelled : r'.cancelled = r.cancelled)
    (hcalls : ∀ time, .called time ∉ events) (hcalling : r'.loop.phase ≠ .calling)
    (hfinished : ∀ result, r'.loop.phase = .finished result → result = .error .cancelled) :
    r₀.Winding (log ++ events) r' := by
  refine ⟨hcancelled.trans hr.cancelled, ?_, ?_, ?_⟩
  · intro time hmem
    rcases List.mem_append.mp hmem with hold | hnew
    · exact hr.calls time hold
    · exact hcalls time hnew
  · intro hnow
    exact absurd hnow hcalling
  · intro result hnow
    exact .inl (hfinished result hnow)

/-- Every step keeps that. -/
theorem Step.winding (step : r.Step events r') (hr : r₀.Winding log r) : r₀.Winding (log ++ events) r' := by
  cases step with
  | call _ hcancelled => cases hcancelled.symm.trans hr.cancelled
  | stop _ _ =>
      refine hr.turn rfl (by simp) ?_ ?_
      · intro hnow
        cases hnow
      · intro result hnow
        cases hnow
        rfl
  | @conclude outcome hphase _ =>
      refine ⟨hr.cancelled, ?_, ?_, ?_⟩
      · intro time hmem
        rcases List.mem_append.mp hmem with hold | hnew
        · exact hr.calls time hold
        · cases List.mem_singleton.mp hnew
      · intro hnow
        cases hnow
      · intro result hnow
        cases hnow
        exact .inr (.inr ⟨hr.underway hphase, r.now, List.mem_append_right _ List.mem_cons_self⟩)
  | fail _ _ | choose _ _ | goOn _ _ =>
      refine hr.turn rfl (by simp) ?_ ?_
      · intro hnow
        cases hnow
      · intro result hnow
        cases hnow
  | aside _ hcancelled =>
      rw [List.append_nil]
      exact ⟨hcancelled hr.cancelled, hr.calls, hr.underway, hr.result⟩

/-- **Under a token that has fired no call is made,** and the loop ends cancelled, unless a call was under way. -/
theorem run_cancelled (hcancelled : r.cancelled = true) (h : run actions r = some r') :
    r.Winding (history actions r) r' := by
  refine run_preserves (P := r.Winding) (fun hr step => step.winding hr) [] ⟨hcancelled, ?_, id, ?_⟩ h
  · intro time hmem
    cases hmem
  · intro result hfinished
    exact .inr (.inl hfinished)

/-! ## At the end -/

/-- A loop that has finished does nothing any more. -/
theorem run_finished (hfinished : r.loop.phase = .finished result) (h : run actions r = some r') :
    r'.loop = r.loop ∧ history actions r = [] := by
  have kept := run_preserves (P := fun log v => v.loop = r.loop ∧ log = []) ?_ [] ⟨rfl, rfl⟩ h
  · exact kept
  · rintro log v events v' ⟨hloop, rfl⟩ step
    rw [← hloop] at hfinished
    cases step with
    | aside _ _ => exact ⟨hloop, rfl⟩
    | call hphase _ | conclude hphase _ | fail hphase _ | choose hphase _ | goOn hphase _ =>
        cases hphase.symm.trans hfinished
    | stop hidle _ =>
        rcases hidle with hphase | ⟨due, hphase⟩
        · cases hphase.symm.trans hfinished
        · cases hphase.symm.trans hfinished

/-! ## What is next -/

/-- What a loop does next. It is never stuck but in a wait that is not over, under a token that has not fired; and where
the wait is over and the token has fired, it comes to the same whichever of the two is noticed. -/
def Moves (r : RetryRun α) : Prop :=
  let stopped := r.turn (.finished (.error .cancelled))
  match r.loop.phase with
  | .looking => r.perform .look = some (if r.cancelled then stopped else r.turn .calling)
  | .calling => ∀ outcome, r.perform (.answer outcome) =
      some (if isPassing outcome then r.turn .failed else r.turn (.finished outcome))
  | .failed => ∀ draw, ∃ r' wait, r.perform (.consult draw) = some r' ∧
      wait = r.loop.delay.delayFor draw (min (r.loop.state.attempt + 1) maxAttempt) r.loop.state.previous ∧
      r'.loop.phase = .waiting (Time.after r.now wait) ∧ r'.loop.state.previous = wait
  | .waiting due =>
    (r.cancelled = false → ∀ timer, r.perform (.wake timer) = if due ≤ r.now then some (r.turn .looking) else none) ∧
    (r.cancelled = true → ∀ timer, r.perform (.wake timer) = some stopped ∨
      due ≤ r.now ∧ r.perform (.wake timer) = some (r.turn .looking) ∧ run [.wake timer, .look] r = some stopped)
  | .finished _ => True

theorem moves (r : RetryRun α) : r.Moves := by
  obtain ⟨⟨delay, state, phase⟩, now, cancelled⟩ := r
  cases phase with
  | looking => cases cancelled <;> rfl
  | calling =>
      intro outcome
      simp only [perform, RetryLoop.answer, Option.map_some]
      cases isPassing outcome <;> rfl
  | failed =>
      intro draw
      exact ⟨_, _, rfl, rfl, rfl, rfl⟩
  | waiting due =>
      refine ⟨?_, ?_⟩
      · rintro ⟨⟩ timer
        by_cases hdue : due ≤ now <;> simp [perform, RetryLoop.wake, hdue, RetryRun.turn]
      · rintro ⟨⟩ timer
        by_cases hnoticed : timer = true ∧ due ≤ now
        · obtain ⟨rfl, hdue⟩ := hnoticed
          have hwake : perform (α := α) (.wake true) ⟨⟨delay, state, .waiting due⟩, now, true⟩ =
              some ⟨⟨delay, state, .looking⟩, now, true⟩ := by
            simp [perform, RetryLoop.wake, hdue]
          refine .inr ⟨hdue, hwake, ?_⟩
          rw [run, hwake]
          rfl
        · refine .inl ?_
          have hcut : (timer && decide (due ≤ now)) = false := by
            simpa using hnoticed
          simp [perform, RetryLoop.wake, hcut, RetryRun.turn]
  | finished result => trivial

/-! ## The law -/

/-- **What a retry loop does.** Whatever its way to find waits, the outcomes of its calls and the moments at which its
token fires and time passes:

* its log is a row of rounds and at most one call more. The k-th round fails for a passing condition and finds a wait
  with the number k, as far as that counts, and from the wait before it; the next call comes when that is over. The
  result is the first other outcome, as it was, or that the loop was cancelled; then the log ends with a round,
* what it does next is determined: whether there is a call by the token, and that it ends by the outcome alone,
* under a token that has fired no call is made, and the result is that, or of a call under way,
* when it has finished, nothing follows. -/
theorem run_retries (h : run actions (start delay cancelled now) = some r) :
    (∃ rounds, RetryRounds delay rounds ∧ r.Tells rounds (history actions (start delay cancelled now))) ∧ r.Moves ∧
    (r.cancelled = true → ∀ rest r', run rest r = some r' → (∀ time, .called time ∉ history rest r) ∧
      ∀ result, r'.loop.phase = .finished result → result = .error .cancelled ∨ r.loop.phase = .finished result ∨
        r.loop.phase = .calling ∧ ∃ time, .returned time result ∈ history rest r) ∧
    ∀ result, r.loop.phase = .finished result → ∀ rest r', run rest r = some r' →
      r'.loop.phase = .finished result ∧ history rest r = [] := by
  obtain ⟨-, rounds, hrounds, -, htells⟩ := run_told h
  refine ⟨⟨rounds, hrounds, htells⟩, moves r, ?_, ?_⟩
  · intro hcancelled rest r' hrest
    have hwinding := run_cancelled hcancelled hrest
    exact ⟨hwinding.calls, hwinding.result⟩
  · intro result hfinished rest r' hrest
    obtain ⟨hloop, hlog⟩ := run_finished hfinished hrest
    exact ⟨(congrArg _ hloop).trans hfinished, hlog⟩

/-- Waits that grow by five milliseconds. -/
def slower : RetryDelay := .lookup fun attempt => .ofMillis (5 * attempt)

/-- The first call fails for a passing condition. The token fires during the second, which succeeds. -/
def overloaded : List (RetryAction String) :=
  [.look, .pass 3, .answer (.error (.rpc .unavailable "down")), .consult 0, .pass 5, .wake true, .look, .cancel,
    .answer (.ok "done")]

/-- The token fires at the very end of the first wait. -/
def tied : List (RetryAction String) :=
  [.look, .answer (.error (.rpc .unavailable "down")), .consult 0, .pass 5, .cancel]

/-- A call that was under way gives the result although the token has fired; at the end of a wait no further call is
made, whichever end is noticed. -/
theorem retries_until_cancelled :
    (∃ r, run overloaded (start slower false 0) = some r ∧ r.now = 8 ∧ r.cancelled = true ∧
      r.loop.phase = .finished (.ok "done") ∧ ∃ rounds, RetryRounds slower rounds ∧
        r.Tells rounds (history overloaded (start slower false 0))) ∧
    ∃ r, run tied (start slower false 0) = some r ∧
      run [.wake false] r = some (r.turn (.finished (.error .cancelled))) ∧
      run [.wake true, .look] r = some (r.turn (.finished (.error .cancelled))) ∧
      ∀ rest r', run rest r = some r' → ∀ time, .called time ∉ history rest r := by
  refine ⟨?_, ?_⟩
  · obtain ⟨r, hrun⟩ : ∃ r, run overloaded (start slower false 0) = some r := ⟨_, rfl⟩
    obtain ⟨hrounds, -⟩ := run_retries hrun
    cases hrun
    exact ⟨_, rfl, rfl, rfl, rfl, hrounds⟩
  · obtain ⟨r, hrun⟩ : ∃ r, run tied (start slower false 0) = some r := ⟨_, rfl⟩
    obtain ⟨-, -, hcancelled, -⟩ := run_retries hrun
    cases hrun
    exact ⟨_, rfl, rfl, rfl, fun rest r' hrest => (hcancelled rfl rest r' hrest).1⟩

end RetryRun

/-! ## Whole runs -/

namespace RetryRun

variable {α : Type} {r r' r'' : RetryRun α} {log log' : List (RetryEvent α)}

/-- Some run leads from one state to another, with these events. -/
def Leads (r : RetryRun α) (log : List (RetryEvent α)) (r' : RetryRun α) : Prop :=
  ∃ actions, run actions r = some r' ∧ history actions r = log

theorem Leads.trans (h : r.Leads log r') (h' : r'.Leads log' r'') : r.Leads (log ++ log') r'' := by
  obtain ⟨actions, hrun, rfl⟩ := h
  obtain ⟨later, hlater, rfl⟩ := h'
  refine ⟨actions ++ later, ?_⟩
  induction actions generalizing r with
  | nil =>
      cases hrun
      exact ⟨hlater, rfl⟩
  | cons action actions ih =>
      obtain ⟨v, hv, hrun⟩ := Option.bind_eq_some_iff.mp hrun
      obtain ⟨hboth, hlog⟩ := ih hrun
      rw [List.cons_append, run, history, history, hv]
      refine ⟨hboth, ?_⟩
      dsimp only
      rw [hlog, List.append_assoc]

variable (delay : RetryDelay) (state : RetryState) (now : Time)

/-- One round, from its call to its wait. -/
theorem leads_round {outcome : Except ClientError α} (takes : Time) (hpassing : isPassing outcome = true) :
    let ended := now + takes
    let next := state.next delay 0
    Leads { loop := { delay, state }, now, cancelled := false }
      [.called now, .returned ended outcome, .consulted 0 next.attempt state.previous next.previous]
      { loop := { delay, state := next, phase := .waiting (Time.after ended next.previous) }, now := ended,
        cancelled := false } := by
  refine ⟨[.look, .pass takes, .answer outcome, .consult 0], ?_⟩
  simp [run, history, perform, events, RetryLoop.look, RetryLoop.answer, RetryLoop.consult, hpassing]

/-- The last call. -/
theorem leads_finished {outcome : Except ClientError α} (takes : Time) (hfinal : isPassing outcome = false) :
    Leads { loop := { delay, state }, now, cancelled := false } [.called now, .returned (now + takes) outcome]
      { loop := { delay, state, phase := .finished outcome }, now := now + takes, cancelled := false } := by
  refine ⟨[.look, .pass takes, .answer outcome], ?_⟩
  simp [run, history, perform, events, RetryLoop.look, RetryLoop.answer, hfinal]

/-- A wait that runs out. -/
theorem leads_rested {due : Time} (h : now ≤ due) :
    Leads (α := α) { loop := { delay, state, phase := .waiting due }, now, cancelled := false } []
      { loop := { delay, state }, now := due, cancelled := false } := by
  refine ⟨[.pass (due - now), .wake true], ?_⟩
  simp [run, history, perform, events, RetryLoop.wake, Nat.add_sub_cancel' h]

/-- A wait that is cut short. -/
theorem leads_cut {t : Time} (due : Time) (h : now ≤ t) :
    Leads (α := α) { loop := { delay, state, phase := .waiting due }, now, cancelled := false } []
      { loop := { delay, state, phase := .finished (.error .cancelled) }, now := t, cancelled := true } := by
  refine ⟨[.pass (t - now), .cancel, .wake false], ?_⟩
  simp [run, history, perform, events, RetryLoop.wake, Nat.add_sub_cancel' h]

end RetryRun

namespace Retry

variable {α : Type} {log : List (RetryEvent α)} {delay : RetryDelay}

/-- The ticks at which calls began. -/
def callTimes (log : List (RetryEvent α)) : List Time :=
  log.filterMap fun
    | .called time => some time
    | _            => none

/-- The numbers that were looked up. -/
def lookups (delay : RetryDelay) (log : List (RetryEvent α)) : List Nat :=
  log.filterMap fun
    | .consulted _ attempt previous _ => delay.lookup? { attempt, previous }
    | _                               => none

/-- What a report says of a run. -/
structure Report.IsOf (delay : RetryDelay) (log : List (RetryEvent α)) (r : RetryRun α) (report : Report α) : Prop where
  finished : ∀ result, report.result = some result → r.loop.phase = .finished result
  unfinished : report.result = none → r.loop.phase = .looking
  calls : report.calls = callTimes log
  lookups : report.lookups = Retry.lookups delay log
  finishedAt : report.finishedAt = r.now

/-- A run that continues after a round is reported with that round in front. -/
theorem Report.IsOf.preceded {state : RetryState} {now ended : Time} {report : Report α}
    {outcome : Except ClientError α} {previous wait : Duration} {r : RetryRun α} (h : report.IsOf delay log r) :
    (report.preceded now (delay.lookup? state)).IsOf delay
      ([.called now, .returned ended outcome, .consulted 0 state.attempt previous wait] ++ log) r := by
  refine ⟨h.finished, h.unfinished, congrArg (now :: ·) h.calls, ?_, h.finishedAt⟩
  show (delay.lookup? state).toList ++ report.lookups = _
  rw [h.lookups]
  cases delay <;> rfl

/-- How a wait ends does not depend on what is noticed first. -/
theorem loop_cons (delay : RetryDelay) (token : Token) (timer : Bool) {call : Attempt α} (calls : List (Attempt α))
    (state : RetryState) (now : Time) (hpassing : isPassing call.outcome = true) :
    let next := state.next delay 0
    let due := Time.after (now + call.takes) next.previous
    loop delay token timer (call :: calls) state now = (match token.cuts? false (now + call.takes) due with
      | some t => Report.cancelledAt t
      | none   => loop delay token timer calls next due).preceded now (delay.lookup? next) := by
  intro next due
  rw [← token.cuts?_or_isFired timer (Time.le_after _ next.previous), loop, if_pos hpassing]
  refine congrArg (Report.preceded now (delay.lookup? next)) ?_
  show (match token.cuts? timer (now + call.takes) due with
    | some t => Report.cancelledAt t
    | none   => if token.isFired due then Report.cancelledAt due else loop delay token timer calls next due) = _
  cases token.cuts? timer (now + call.takes) due with
  | some t => rfl
  | none => cases token.isFired due <;> rfl

theorem loop_timer (delay : RetryDelay) (token : Token) (timer : Bool) (calls : List (Attempt α)) (state : RetryState)
    (now : Time) : loop delay token timer calls state now = loop delay token false calls state now := by
  induction calls generalizing state now with
  | nil => rfl
  | cons call calls ih =>
      by_cases hpassing : isPassing call.outcome = true
      · rw [loop_cons _ _ _ _ _ _ hpassing, loop_cons _ _ _ _ _ _ hpassing, ih]
      · rw [loop, loop, if_neg hpassing, if_neg hpassing]

/-- **A whole run does not depend on which of two ends of a wait is noticed first.** -/
theorem run_timer (delay : RetryDelay) (token : Token) (timer timer' : Bool) (calls : List (Attempt α)) (now : Time) :
    run delay token timer calls now = run delay token timer' calls now := by
  rw [run, run, loop_timer, loop_timer _ _ timer']

/-- The loop from its next call on goes step by step as its report says. -/
theorem loop_isRun (delay : RetryDelay) (token : Token) (calls : List (Attempt α)) (state : RetryState) (now : Time) :
    ∃ log r, RetryRun.Leads { loop := { delay, state }, now, cancelled := false } log r ∧
      (loop delay token false calls state now).IsOf delay log r := by
  induction calls generalizing state now with
  | nil =>
      refine ⟨[], _, ⟨[], rfl, rfl⟩, ?_, fun _ => rfl, rfl, rfl, rfl⟩
      rintro result ⟨⟩
  | cons call calls ih =>
      by_cases hpassing : isPassing call.outcome = true
      · have hround := RetryRun.leads_round delay state now call.takes hpassing
        rw [loop_cons _ _ _ _ _ _ hpassing]
        -- The wait is cut short, or it runs out and the next round begins.
        split
        · rename_i t hcut
          refine ⟨_, _, hround.trans (RetryRun.leads_cut delay _ _ _ (Token.le_of_cuts? hcut)), .preceded ?_⟩
          refine ⟨?_, nofun, rfl, rfl, rfl⟩
          rintro result ⟨⟩
          rfl
        · obtain ⟨log, r, hrest, hreport⟩ := ih (state.next delay 0)
            (Time.after (now + call.takes) (state.next delay 0).previous)
          have hrested := (RetryRun.leads_rested delay _ _ (Time.le_after _ _)).trans hrest
          exact ⟨_, r, hround.trans hrested, hreport.preceded⟩
      · have hfinal : isPassing call.outcome = false := eq_false_of_ne_true hpassing
        rw [loop, if_neg hpassing]
        refine ⟨_, _, RetryRun.leads_finished delay state now call.takes hfinal, ?_, nofun, rfl, rfl, rfl⟩
        rintro result ⟨⟩
        rfl

/-- **A whole run goes step by step as its report says.** -/
theorem run_isRun (delay : RetryDelay) (token : Token) (timer : Bool) (calls : List (Attempt α)) (now : Time) :
    ∃ log r, (RetryRun.start delay token.wasFired now).Leads log r ∧
      (run delay token timer calls now).IsOf delay log r := by
  rw [run, loop_timer]
  cases token.wasFired with
  | false => exact loop_isRun delay token calls {} now
  | true =>
      refine ⟨[], _, ⟨[.look], rfl, rfl⟩, ?_, nofun, rfl, rfl, rfl⟩
      rintro result ⟨⟩
      rfl

end Retry

end JobWorker
