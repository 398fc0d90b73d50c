import JobWorker.Proofs.Desk.Account

/-!
# `JobWorker.Proofs.Desk` — callers side by side lose nothing

However the steps of any number of calls, of pushes and of further scripting alternate, every scripted job is served
once and in order, every scripted failure is used once, and no call sleeps through a batch.

## Contents
- **One action.** `Desk.Cuts`, `Desk.step_served`, `Desk.step_refused`; `Desk.Wakes`, `Desk.Awake.wakes`.
- **Runs.** `Desk.Kept`, `Desk.run_kept`.
- **The law.** `Desk.run_conserves`.
-/

namespace JobWorker

open DeskLog

namespace Desk

variable {d d' : Desk} {gateway : Gateway} {now : Time} {action : DeskAction} {actions : List DeskAction} {id : Nat}
variable {c : Call}

/-! ## One action -/

/-- What one piece that is served makes of the pending batches: it is cut from the front one. What is left of that, if
anything, stays in front. -/
def Cuts (c : Call) (piece : Batch) (before after : Gateway) : Prop :=
  ∃ batch later, before.batches = batch :: later ∧ piece = batch.take c.wanted ∧
    after.activationFailures = before.activationFailures ∧
    (c.wanted < batch.length ∧ batch.drop c.wanted ≠ [] ∧ after.batches = batch.drop c.wanted :: later ∨
      batch.length ≤ c.wanted ∧ piece = batch ∧ after.batches = later)

/-- A piece that is served is cut from the front batch. -/
theorem step_served {piece : Batch} (h : d.perform action = some d') (hserved : .served id piece ∈ events action d d') :
    ∃ c, d.call? id = some c ∧ Cuts c piece d.gateway d'.gateway := by
  have step := perform_cases h
  generalize events action d d' = log at step hserved
  cases step with
  | @call _ _ c _ _ _ hc hstep =>
      cases hstep with
      | @serve batch later _ hbatches =>
          cases List.mem_singleton.mp hserved
          refine ⟨c, hc, batch, later, hbatches, rfl, rfl, ?_⟩
          show _ ∧ _ ∧ Gateway.rest c.wanted batch later = _ ∨ _ ∧ _ ∧ Gateway.rest c.wanted batch later = _
          unfold Gateway.rest
          split
          · rename_i hlt
            exact .inl ⟨hlt, fun hnil => absurd (List.drop_eq_nil_iff.mp hnil) (Nat.not_le.mpr hlt), rfl⟩
          · rename_i hge
            exact .inr ⟨Nat.le_of_not_lt hge, List.take_of_length_le (Nat.le_of_not_lt hge), rfl⟩
      | record _ _ => cases List.mem_singleton.mp hserved
      | refuse _ _ =>
          rcases List.mem_cons.mp hserved with hfirst | hsecond
          · cases hfirst
          · cases List.mem_singleton.mp hsecond
      | note _ | hold _ _ | leave _ => cases hserved
  | store | announce _ | failActivations | aside _ _ _ _ _ _ | arrive | giveUp _ _ => cases hserved

/-- A call that is refused uses up one failure and no job. -/
theorem step_refused {status : Status} (h : d.perform action = some d')
    (hrefused : .refused id status ∈ events action d d') :
    d.gateway.activationFailures = status :: d'.gateway.activationFailures ∧
      d'.gateway.batches = d.gateway.batches := by
  have step := perform_cases h
  generalize events action d d' = log at step hrefused
  cases step with
  | call _ hstep =>
      cases hstep with
      | refuse _ hfailures =>
          rcases List.mem_cons.mp hrefused with hfirst | hsecond
          · cases hfirst
          · cases List.mem_singleton.mp hsecond
            exact ⟨hfailures, rfl⟩
      | record _ _ | serve _ _ => cases List.mem_singleton.mp hrefused
      | note _ | hold _ _ | leave _ => cases hrefused
  | store | announce _ | failActivations | aside _ _ _ _ _ _ | arrive | giveUp _ _ => cases hrefused

/-- A call that can go on at once: its next step answers it, and where it does not take it that its time is up, it is
served. -/
def Wakes (id : Nat) (d : Desk) : Prop :=
  (∀ timer, ∃ d' c', d.perform (.step id timer) = some d' ∧ d'.call? id = some c' ∧ c'.answer?.isSome) ∧
    ∃ d' piece, d.perform (.step id false) = some d' ∧ .served id piece ∈ events (.step id false) d d'

/-- The step of a call at a desk is that of the call. -/
theorem perform_step {timer : Bool} {c' : Call} (hc : d.call? id = some c)
    (hstep : c.step d.now timer d.gateway = some (gateway, c')) :
    ∃ d', d.perform (.step id timer) = some d' ∧ d'.call? id = some c' ∧
      events (.step id timer) d d' = c.events id d.gateway c' := by
  have hset : ({ d with gateway }.setCall id (some c')).call? id = some c' :=
    call?_setCall_self (d := { d with gateway }) (lt_of_call? hc)
  refine ⟨{ d with gateway }.setCall id (some c'), ?_, hset, ?_⟩
  · simp only [perform, step, hc, hstep, Option.bind_eq_bind, Option.bind_some]
    rfl
  · simp only [events, hc, hset]

/-- A held call that has been told of a further batch can go on at once. -/
theorem wakes_of_told {seen : Nat} {due : Time} (hc : d.call? id = some c) (hphase : c.phase = .held seen due)
    (htold : seen < d.gateway.pushes) (hpending : d.gateway.batches ≠ []) : d.Wakes id := by
  obtain ⟨batch, later, hbatches⟩ := List.exists_cons_of_ne_nil hpending
  have hserve : c.serve d.gateway = ({ d.gateway with batches := Gateway.rest c.wanted batch later },
      { c with phase := .answered (.ok [handTo c.request.worker (batch.take c.wanted)]) }) := by
    simp only [Call.serve, Gateway.nextBatch?_cons _ _ hbatches]
  have hstep : ∀ timer, c.step d.now timer d.gateway =
      if decide (due ≤ d.now) && timer then some (d.gateway, { c with phase := .answered (.ok []) })
      else some (c.serve d.gateway) := by
    intro timer
    simp only [Call.step, hphase, htold, decide_true, Bool.not_true, Bool.or_false, if_true]
  refine ⟨fun timer => ?_, ?_⟩
  · cases hlate : decide (due ≤ d.now) && timer with
    | true =>
        have hleave := hstep timer
        rw [hlate, if_pos rfl] at hleave
        obtain ⟨d', hperform, hc', -⟩ := perform_step hc hleave
        exact ⟨d', _, hperform, hc', rfl⟩
    | false =>
        have hserved := hstep timer
        rw [hlate, if_neg Bool.false_ne_true, hserve] at hserved
        obtain ⟨d', hperform, hc', -⟩ := perform_step hc hserved
        exact ⟨d', _, hperform, hc', rfl⟩
  · have hserved := hstep false
    rw [Bool.and_false, if_neg Bool.false_ne_true, hserve] at hserved
    obtain ⟨d', hperform, -, hevents⟩ := perform_step hc hserved
    refine ⟨d', batch.take c.wanted, hperform, ?_⟩
    rw [hevents]
    simp only [Call.events, hphase, hbatches]
    exact List.mem_cons_self

/-- **No call sleeps through a batch:** it can go on at once, or a push is about to announce, and then it can. -/
theorem Awake.wakes {seen : Nat} {due : Time} (hd : d.Awake) (hc : d.call? id = some c)
    (hphase : c.phase = .held seen due) (hpending : d.gateway.batches ≠ []) :
    d.Wakes id ∨ ∃ d', d.perform .announce = some d' ∧ d'.Wakes id := by
  have hawake := hd id c hc
  rw [Call.Awake, hphase] at hawake
  obtain ⟨hseen, htold | hnone | hannounce⟩ := hawake
  · exact .inl (wakes_of_told hc hphase htold hpending)
  · exact absurd hnone hpending
  · have hperform : d.perform .announce =
        some { d with gateway := d.gateway.announce, unannounced := d.unannounced - 1 } :=
      if_neg (Nat.ne_of_gt hannounce)
    exact .inr ⟨_, hperform, wakes_of_told hc hphase (Nat.lt_succ_of_le hseen) hpending⟩

/-! ## Runs -/

/-- What every action at a desk keeps: the stock, what the calls can tell, and that they are awake. -/
structure Kept (gateway : Gateway) (past : List DeskAction) (log : List DeskEvent) (d : Desk) : Prop where
  stocked : d.gateway.Stocked (gateway.batches ++ past.flatMap (·.script))
    (gateway.activationFailures ++ past.flatMap (·.failures)) gateway.requests log
  told : d.Told log
  awake : d.Awake

/-- At a desk without calls everything is in order. -/
theorem Kept.start : Kept gateway [] [] { gateway, now } := by
  have hnone : ∀ id, ({ gateway, now } : Desk).call? id = none := fun id => rfl
  refine ⟨⟨?_, ?_, ?_, ?_, ?_⟩, ⟨?_, ?_, fun _ _ => rfl⟩, ?_⟩
  · rw [List.flatMap_nil, List.append_nil]
    rfl
  · intro piece hmem
    cases hmem
  · intro batch hmem
    exact ⟨batch, List.mem_append_left _ hmem, List.suffix_refl batch⟩
  · exact (List.append_nil _).symm
  · exact (List.append_nil _).symm
  · intro id c hc
    rw [hnone] at hc
    cases hc
  · intro id hgone
    cases hgone
  · intro id c hc
    rw [hnone] at hc
    cases hc

theorem Kept.perform {past : List DeskAction} {log : List DeskEvent} (hd : Kept gateway past log d)
    (h : d.perform action = some d') : Kept gateway (past ++ [action]) (log ++ events action d d') d' := by
  have step := perform_cases h
  refine ⟨?_, step.told hd.told, step.awake hd.awake⟩
  have hstocked := step.stocked hd.stocked
  rwa [List.append_assoc, List.append_assoc, ← List.flatMap_singleton DeskAction.script,
    ← List.flatMap_singleton DeskAction.failures, ← List.flatMap_append, ← List.flatMap_append] at hstocked

/-- Everything stays in order. -/
theorem run_kept (h : run actions { gateway, now } = some d) :
    Kept gateway actions (history actions { gateway, now }) d :=
  run_preserves (P := Kept gateway) (fun hd hperform => hd.perform hperform) [] [] Kept.start h

/-! ## The law -/

/-- **A gateway conserves jobs.** At every desk that a run reaches, whatever was pushed, scripted and called in
whatever order:

* what was served, piece by piece, and what is pending are what was scripted, in order; each piece comes from one batch,
* the failures that calls met and those to come are those that were scripted, and every call was recorded in turn,
* each call was recorded once, and ended with a scripted failure, or with one piece at most, no longer than it asked for
  and handed to its worker; a call that was given up was served nothing,
* whatever action is next: a piece is cut from the front batch, whose rest stays in front; a failure takes no job,
* a held call can go on at once if a batch is pending, or else as soon as the push that brought it announces it; then
  it is served, unless it takes it that its time is up. -/
theorem run_conserves (h : run actions { gateway, now } = some d) :
    let log := history actions { gateway, now }
    let script := gateway.batches ++ actions.flatMap (·.script)
    (pieces log).flatten ++ d.gateway.batches.flatten = script.flatten ∧
    (∀ piece ∈ pieces log, ∃ batch ∈ script, piece <:+: batch) ∧
    refused log ++ d.gateway.activationFailures = gateway.activationFailures ++ actions.flatMap (·.failures) ∧
    d.gateway.requests = gateway.requests ++ recorded log ∧
    (∀ id c, d.call? id = some c → c.Told id (own id log)) ∧
    (∀ id : Nat, d.calls[id]? = some none → ∃ request, own id log = [.recorded id request]) ∧
    (∀ id, d.calls.length ≤ id → own id log = []) ∧
    (∀ action d', d.perform action = some d' →
      (∀ id piece, .served id piece ∈ events action d d' →
        ∃ c, d.call? id = some c ∧ Cuts c piece d.gateway d'.gateway) ∧
      ∀ id status, .refused id status ∈ events action d d' →
        d.gateway.activationFailures = status :: d'.gateway.activationFailures ∧
          d'.gateway.batches = d.gateway.batches) ∧
    ∀ id c seen due, d.call? id = some c → c.phase = .held seen due → d.gateway.batches ≠ [] →
      d.Wakes id ∨ ∃ d', d.perform .announce = some d' ∧ d'.Wakes id := by
  obtain ⟨stocked, told, awake⟩ := run_kept h
  refine ⟨stocked.whole, stocked.served, stocked.failures, stocked.requests, told.calls, told.gone, told.future, ?_, ?_⟩
  · intro action d' hperform
    exact ⟨fun _ _ => step_served hperform, fun _ _ => step_refused hperform⟩
  · intro id c seen due hc hphase hpending
    exact awake.wakes hc hphase hpending

/-- Two calls are held, one of them is given up, and a batch is scripted. -/
def opening : List DeskAction :=
  [.arrive { worker := "a", maxJobs := 2, requestTimeout := 1000 }, .step 0 false, .step 0 false, .step 0 false,
    .arrive { worker := "b", maxJobs := 9, requestTimeout := 1000 }, .step 1 false, .step 1 false, .step 1 false,
    .giveUp 1, .store [{ key := 1 }, { key := 2 }, { key := 3 }]]

/-- The batch is announced and cut. One call asks for less than nothing, one is refused, and one takes the rest. -/
def rush : List DeskAction :=
  [.announce, .step 0 false, .arrive { worker := "c", maxJobs := -1 }, .step 2 false, .step 2 false, .step 2 false,
    .failActivations .unavailable 1, .arrive { worker := "d", maxJobs := 1 }, .step 3 false,
    .arrive { worker := "e", maxJobs := 2147483647 }, .step 4 false, .step 4 false, .step 4 false]

/-- The held call is about to be woken, and in the end all three jobs were served in order and all five calls recorded;
the one that asked for nothing was told of an empty piece. -/
theorem conserves_in_a_rush :
    (∃ d, run opening {} = some d ∧ d.gateway.batches.length = 1 ∧
      (d.Wakes 0 ∨ ∃ d', d.perform .announce = some d' ∧ d'.Wakes 0) ∧
      ∃ request, own 1 (history opening {}) = [.recorded 1 request]) ∧
    ∃ d, run (opening ++ rush) {} = some d ∧ d.gateway.batches = [] ∧
      (pieces (history (opening ++ rush) {})).flatten = [{ key := 1 }, { key := 2 }, { key := 3 }] ∧
      refused (history (opening ++ rush) {}) = [.unavailable] ∧
      (recorded (history (opening ++ rush) {})).map (·.worker) = ["a", "b", "c", "d", "e"] ∧
      (d.call? 2).bind (·.answer?) matches some (.ok [[]]) := by
  refine ⟨?_, ?_⟩
  · obtain ⟨d, hrun⟩ : ∃ d, run opening {} = some d := ⟨_, rfl⟩
    obtain ⟨-, -, -, -, -, hgone, -, -, hwakes⟩ := run_conserves hrun
    cases hrun
    exact ⟨_, rfl, rfl, hwakes 0 _ _ _ rfl rfl (by decide), hgone 1 rfl⟩
  · obtain ⟨d, hrun⟩ : ∃ d, run (opening ++ rush) {} = some d := ⟨_, rfl⟩
    obtain ⟨hwhole, -, hrefused, hrequests, -⟩ := run_conserves hrun
    cases hrun
    exact ⟨_, rfl, rfl, hwhole, hrefused, (congrArg _ hrequests).symm, rfl⟩

end Desk

end JobWorker
