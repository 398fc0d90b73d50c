import JobWorker.Proofs.Desk

/-!
# `JobWorker.Proofs.Desk.Hold` — how long a call is held

A call that finds nothing goes on hold, and its long poll begins. It may end without a response when the long poll is
over. But there is one other case. A push wakes every call on hold, and only one caller gets the batch; each of the
others looks once more, finds nothing, and ends there and then, however much of its long poll is left. So a call that
ends without a response was held for its whole long poll **unless** it was outrun in this way.

## Contents
- **Holds.** `Desk.WentOnHold`, `Desk.Hold`, `Desk.Outrun`.
- **The next step.** `Desk.ends_empty_iff`.
- **Who outran it.** `Desk.Supplied`, `Desk.served_of_outrun`.
- **The law.** `Desk.Traced`, `Desk.run_traced`, `Desk.run_holds`.
-/

namespace JobWorker

open DeskLog

/-- A call that is looking for a batch or held knows of this many announcements. -/
def Call.Knows (seen : Nat) (c : Call) : Prop := c.phase = .looking seen ∨ ∃ due, c.phase = .held seen due

namespace Desk

/-! ## Holds -/

/-- In the course of these actions the call with this number looked for a batch at the desk `first`, found nothing, and
went on hold. -/
def WentOnHold (start : Desk) (actions : List DeskAction) (id seen : Nat) (c : Call) (first : Desk) : Prop :=
  ∃ past timer later, actions = past ++ .step id timer :: later ∧ run past start = some first ∧
    first.call? id = some { c with phase := .looking seen } ∧ first.gateway.batches = []

/-- It was still held at the desk `last`, and ended there. -/
structure Hold (start : Desk) (actions : List DeskAction) (id seen : Nat) (c : Call) (first last : Desk) : Prop where
  ended : ∃ past timer later, actions = past ++ .step id timer :: later ∧ run past start = some last ∧
    WentOnHold start past id seen c first
  held : last.call? id = some { c with phase := .held seen (Time.after first.now c.longPoll) }

/-- A call that knew of `seen` announcements was told of a further one, but nothing is pending any more. -/
def Outrun (seen : Nat) (d : Desk) : Prop := seen < d.gateway.pushes ∧ d.gateway.batches = []

variable {start d d' first last : Desk} {gateway : Gateway} {now due : Time} {action : DeskAction} {timer : Bool}
variable {past later actions : List DeskAction} {log : List DeskEvent} {id seen : Nat} {c c' : Call}

theorem WentOnHold.append (h : WentOnHold start past id seen c first) (later : List DeskAction) :
    WentOnHold start (past ++ later) id seen c first := by
  obtain ⟨before, timer, after, rfl, hrun, hlooks, hnone⟩ := h
  exact ⟨before, timer, after ++ later, by simp, hrun, hlooks, hnone⟩

theorem Hold.append (h : Hold start past id seen c first last) (later : List DeskAction) :
    Hold start (past ++ later) id seen c first last := by
  obtain ⟨⟨before, timer, after, rfl, hrun, hbegan⟩, hheld⟩ := h
  exact ⟨⟨before, timer, after ++ later, by simp, hrun, hbegan⟩, hheld⟩

/-! ## The next step -/

/-- What a call is after a step at a desk comes of its own step. -/
theorem ownStep_of_perform (hc : d.call? id = some c) (h : d.perform (.step id timer) = some d')
    (hc' : d'.call? id = some c') : ∃ g', c.step d.now timer d.gateway = some (g', c') := by
  obtain ⟨c₀, hc₀, hbind⟩ := Option.bind_eq_some_iff.mp h
  cases hc.symm.trans hc₀
  obtain ⟨⟨g', c₁⟩, hstep, hset⟩ := Option.bind_eq_some_iff.mp hbind
  cases hset
  have hself : ({ d with gateway := g' }.setCall id (some c₁)).call? id = some c₁ :=
    call?_setCall_self (d := { d with gateway := g' }) (lt_of_call? hc)
  cases hself.symm.trans hc'
  exact ⟨g', hstep⟩

/-- How a call is answered in its next step can be seen at the desk. -/
theorem answers_iff {answer : Except ClientError (List Batch)} (hc : d.call? id = some c) :
    (∃ d' c', d.perform (.step id timer) = some d' ∧ d'.call? id = some c' ∧ c'.phase = .answered answer) ↔
      ∃ g' c', c.step d.now timer d.gateway = some (g', c') ∧ c'.phase = .answered answer := by
  constructor
  · rintro ⟨d', c', hperform, hc', hanswer⟩
    obtain ⟨g', hstep⟩ := ownStep_of_perform hc hperform hc'
    exact ⟨g', c', hstep, hanswer⟩
  · rintro ⟨g', c', hstep, hanswer⟩
    obtain ⟨d', hperform, hc', -⟩ := perform_step hc hstep
    exact ⟨d', c', hperform, hc', hanswer⟩

/-- **When a held call ends without a response:** when its time is up, unless it was told of a push and that is what it
notices; or when it was outrun, however early that is. -/
theorem ends_empty_iff (hc : d.call? id = some c) (hphase : c.phase = .held seen due) :
    (∃ d' c', d.perform (.step id timer) = some d' ∧ d'.call? id = some c' ∧ c'.phase = .answered (.ok [])) ↔
      due ≤ d.now ∧ (timer = true ∨ d.gateway.pushes ≤ seen) ∨ d.Outrun seen := by
  rw [answers_iff hc]
  by_cases hlate : due ≤ d.now ∧ (timer = true ∨ d.gateway.pushes ≤ seen)
  · have hstep : c.step d.now timer d.gateway = some (d.gateway, { c with phase := .answered (.ok []) }) := by
      obtain ⟨hdue, htimer⟩ := hlate
      have hnotices : (timer || !decide (seen < d.gateway.pushes)) = true := by
        rcases htimer with rfl | huntold
        · rfl
        · simp [Nat.not_lt.mpr huntold]
      simp [Call.step, hphase, hdue, hnotices]
    exact ⟨fun _ => .inl hlate, fun _ => ⟨_, _, hstep, rfl⟩⟩
  · have hstep : c.step d.now timer d.gateway =
        if seen < d.gateway.pushes then some (c.serve d.gateway) else none := by
      have hgoesOn : ¬(decide (due ≤ d.now) && (timer || !decide (seen < d.gateway.pushes))) = true := by
        simpa using hlate
      simp [Call.step, hphase, hgoesOn]
    rw [hstep]
    cases hbatches : d.gateway.batches with
    | nil =>
        have hserve : c.serve d.gateway = (d.gateway, { c with phase := .answered (.ok []) }) := by
          simp only [Call.serve, Gateway.nextBatch?_nil _ _ hbatches]
        refine ⟨?_, ?_⟩
        · rintro ⟨g', c', hstep, -⟩
          split at hstep
          · exact .inr ⟨‹_›, hbatches⟩
          · cases hstep
        · rintro (hup | ⟨htold, -⟩)
          · exact absurd hup hlate
          · exact ⟨_, _, (if_pos htold).trans (congrArg some hserve), rfl⟩
    | cons batch rest =>
        have hserve : c.serve d.gateway = ({ d.gateway with batches := Gateway.rest c.wanted batch rest },
            { c with phase := .answered (.ok [handTo c.request.worker (batch.take c.wanted)]) }) := by
          simp only [Call.serve, Gateway.nextBatch?_cons _ _ hbatches]
        refine ⟨?_, ?_⟩
        · rintro ⟨g', c', hstep, hanswer⟩
          split at hstep
          · cases hserve.symm.trans (Option.some.inj hstep)
            cases hanswer
          · cases hstep
        · rintro (hup | ⟨-, hnone⟩)
          · exact absurd hup hlate
          · exact absurd hnone (by rw [hbatches]; exact List.cons_ne_nil _ _)

/-! ## Who outran it -/

/-- Every announcement is of a batch that was scripted; as long as none is served, all are pending. -/
structure Supplied (gateway : Gateway) (past : List DeskAction) (log : List DeskEvent) (d : Desk) : Prop where
  announced : d.gateway.pushes + d.unannounced = gateway.pushes + (past.flatMap (·.script)).length
  grown : gateway.pushes ≤ d.gateway.pushes
  pending : pieces log = [] → d.gateway.batches = gateway.batches ++ past.flatMap (·.script)
  knows : ∀ id c seen, d.call? id = some c → c.Knows seen → gateway.pushes ≤ seen

/-- An action that scripts no batch keeps that. -/
theorem Supplied.quiet {events : List DeskEvent} (hd : Supplied gateway past log d) (hscript : action.script = [])
    (hannounced : d'.gateway.pushes + d'.unannounced = d.gateway.pushes + d.unannounced)
    (hgrown : d.gateway.pushes ≤ d'.gateway.pushes)
    (hpending : pieces events = [] → d'.gateway.batches = d.gateway.batches)
    (hknows : ∀ id c seen, d'.call? id = some c → c.Knows seen → gateway.pushes ≤ seen) :
    Supplied gateway (past ++ [action]) (log ++ events) d' := by
  obtain ⟨announced, grown, pending, -⟩ := hd
  have hsame : (past ++ [action]).flatMap (·.script) = past.flatMap (·.script) := by
    simp [hscript]
  refine ⟨?_, Nat.le_trans grown hgrown, ?_, hknows⟩
  · rw [hsame, hannounced, announced]
  · intro hnone
    rw [pieces_append] at hnone
    obtain ⟨hbefore, hnow⟩ := List.append_eq_nil_iff.mp hnone
    rw [hsame, hpending hnow, pending hbefore]

/-- **Every action keeps that.** -/
theorem Supplied.perform (hd : Supplied gateway past log d) (h : d.perform action = some d') :
    Supplied gateway (past ++ [action]) (log ++ Desk.events action d d') d' := by
  have step := perform_cases h
  generalize Desk.events action d d' = events at step
  cases step with
  | @store batch =>
      obtain ⟨announced, grown, pending, knows⟩ := hd
      refine ⟨?_, grown, ?_, knows⟩
      · show d.gateway.pushes + (d.unannounced + 1) = _
        simp [DeskAction.script, ← Nat.add_assoc, announced]
      · intro hnone
        rw [List.append_nil] at hnone
        show d.gateway.batches ++ [batch] = _
        simp [DeskAction.script, pending hnone]
  | announce hpending =>
      refine hd.quiet rfl ?_ (Nat.le_succ _) (fun _ => rfl) hd.knows
      show d.gateway.pushes + 1 + (d.unannounced - 1) = _
      omega
  | failActivations => exact hd.quiet rfl rfl (Nat.le_refl _) (fun _ => rfl) hd.knows
  | aside hscript _ hbatches _ _ hpushes =>
      refine hd.quiet hscript ?_ (Nat.le_of_eq hpushes.symm) (fun _ => hbatches) hd.knows
      exact congrArg (· + d.unannounced) hpushes
  | arrive =>
      refine hd.quiet rfl rfl (Nat.le_refl _) (fun _ => rfl) ?_
      intro id c seen hc hknows
      rcases place_arrive_cases (call?_eq_some_iff.mp hc) with ⟨-, hnew⟩ | ⟨-, hold⟩
      · cases hnew
        rcases hknows with hphase | ⟨due, hphase⟩ <;> cases hphase
      · exact hd.knows id c seen (call?_eq_some_iff.mpr hold) hknows
  | @call id timer c _ g' c' hc hstep =>
      have hpushes := hstep.frame.1
      refine hd.quiet rfl ?_ (Nat.le_of_eq hpushes.symm) ?_ ?_
      · exact congrArg (· + d.unannounced) hpushes
      · intro hnone
        cases hstep with
        | serve _ _ => cases hnone
        | record _ _ | refuse _ _ | note _ | hold _ _ | leave _ => rfl
      · intro i other seen hother hknows
        rcases call?_setCall_cases (d := { d with gateway := g' }) (lt_of_call? hc) hother with ⟨rfl, hset⟩ | ⟨-, hold⟩
        · cases hset
          cases hstep with
          | note _ =>
              rcases hknows with hphase | ⟨due, hphase⟩
              · cases hphase
                exact hd.grown
              · cases hphase
          | hold hphase _ =>
              rcases hknows with hnow | ⟨due, hnow⟩
              · cases hnow
              · cases hnow
                exact hd.knows _ _ _ hc (.inl hphase)
          | record _ _ | refuse _ _ | serve _ _ | leave _ =>
              rcases hknows with hphase | ⟨due, hphase⟩ <;> cases hphase
        · exact hd.knows i other seen hold hknows
  | giveUp hc _ =>
      refine hd.quiet rfl rfl (Nat.le_refl _) (fun _ => rfl) ?_
      intro i other seen hother hknows
      rcases call?_setCall_cases (lt_of_call? hc) hother with ⟨-, hset⟩ | ⟨-, hold⟩
      · cases hset
      · exact hd.knows i other seen hold hknows

theorem history_append (hrun : run past start = some d) (later : List DeskAction) :
    history (past ++ later) start = history past start ++ history later d := by
  induction past generalizing start with
  | nil =>
      cases hrun
      rfl
  | cons action past ih =>
      obtain ⟨v, hv, hrun⟩ := Option.bind_eq_some_iff.mp hrun
      rw [List.cons_append, history, history, hv]
      dsimp only
      rw [ih hrun, List.append_assoc]

/-- **A held call is outrun by another one,** which was served. -/
theorem served_of_outrun (h : run actions { gateway, now } = some d) (hc : d.call? id = some c)
    (hphase : c.phase = .held seen due) (houtrun : d.Outrun seen) :
    ∃ other piece, other ≠ id ∧ .served other piece ∈ history actions { gateway, now } := by
  obtain ⟨htold, hnone⟩ := houtrun
  have hsupplied : Supplied gateway actions (history actions { gateway, now }) d := by
    refine run_preserves (P := Supplied gateway) (fun hd => hd.perform) [] [] ?_ h
    refine ⟨rfl, Nat.le_refl _, fun _ => (List.append_nil _).symm, ?_⟩
    intro id c seen hc
    cases hc
  have hseen := hsupplied.knows id c seen hc (.inr ⟨due, hphase⟩)
  -- what was announced was scripted, and nothing of it is left
  have hserved : pieces (history actions { gateway, now }) ≠ [] := by
    intro hunserved
    have hpending := hsupplied.pending hunserved
    rw [hnone] at hpending
    have hscript := (List.append_eq_nil_iff.mp hpending.symm).2
    have hannounced := hsupplied.announced
    rw [hscript, List.length_nil] at hannounced
    omega
  obtain ⟨piece, hpiece⟩ := List.exists_mem_of_ne_nil _ hserved
  obtain ⟨event, hevent, hpiece⟩ := List.mem_filterMap.mp hpiece
  cases event with
  | recorded _ _ | refused _ _ => cases hpiece
  | served other piece =>
      refine ⟨other, piece, ?_, hevent⟩
      rintro rfl
      -- a held call itself was only recorded
      have hown := (run_kept h).told.calls other c hc
      rw [Call.Told, hphase] at hown
      have hmem : DeskEvent.served other piece ∈ own other (history actions { gateway, now }) :=
        List.mem_filter.mpr ⟨hevent, beq_self_eq_true other⟩
      rw [hown] at hmem
      cases List.mem_singleton.mp hmem

/-! ## The law -/

/-- What can be traced of a call: since when it has been held, or, if it ended without a response, how long it was. -/
def CallTraced (start : Desk) (actions : List DeskAction) (id : Nat) (c : Call) : Prop :=
  match c.phase with
  | .held seen due      => ∃ first, WentOnHold start actions id seen c first ∧ due = Time.after first.now c.longPoll
  | .answered (.ok [])  => ∃ seen first last, Hold start actions id seen c first last ∧
      (Time.after first.now c.longPoll ≤ last.now ∨ last.Outrun seen)
  | _                   => True

/-- The calls of a desk that was reached can be traced. -/
structure Traced (start : Desk) (actions : List DeskAction) (d : Desk) : Prop where
  reached : run actions start = some d
  calls : ∀ id c, d.call? id = some c → CallTraced start actions id c

theorem CallTraced.append (h : CallTraced start past id c) (later : List DeskAction) :
    CallTraced start (past ++ later) id c := by
  unfold CallTraced at h ⊢
  split at h
  · obtain ⟨first, hbegan, hdue⟩ := h
    exact ⟨first, hbegan.append later, hdue⟩
  · obtain ⟨seen, first, last, hhold, hlast⟩ := h
    exact ⟨seen, first, last, hhold.append later, hlast⟩
  · trivial

theorem run_concat (hrun : run past start = some d) : run (past ++ [action]) start = d.perform action := by
  induction past generalizing start with
  | nil =>
      cases hrun
      exact Option.bind_fun_some _
  | cons first past ih =>
      obtain ⟨v, hv, hrun⟩ := Option.bind_eq_some_iff.mp hrun
      rw [List.cons_append, run, hv]
      exact ih hrun

/-- A call's own step keeps it traced: it goes on hold at this desk, or its hold ends here. -/
theorem Traced.ownStep (hd : Traced start past d) (hc : d.call? id = some c)
    (h : d.perform (.step id timer) = some d') (hc' : d'.call? id = some c') :
    CallTraced start (past ++ [.step id timer]) id c' := by
  have hown := hd.calls id c hc
  obtain ⟨g', hstep⟩ := ownStep_of_perform hc h hc'
  obtain ⟨request, phase⟩ := c
  have step := Call.step_cases id hstep
  generalize Call.events id d.gateway ⟨request, phase⟩ c' = events at step
  cases step with
  | hold hphase hnone =>
      cases hphase
      exact ⟨d, ⟨past, timer, [], rfl, hd.reached, hc, hnone⟩, rfl⟩
  | @leave seen due hphase =>
      -- the invariant knows since when it was held, `ends_empty_iff` why it ends
      cases hphase
      obtain ⟨first, hbegan, hdue⟩ := hown
      have hlast : due ≤ d.now ∨ d.Outrun seen :=
        ((ends_empty_iff hc rfl).mp ⟨d', _, h, hc', rfl⟩).imp_left (·.1)
      rw [hdue] at hc hlast
      exact ⟨seen, first, d, ⟨⟨past, timer, [], rfl, hd.reached, hbegan⟩, hc⟩, hlast⟩
  | record _ _ | refuse _ _ | note _ | serve _ _ => trivial

/-- **Every action keeps all calls traced.** -/
theorem Traced.perform (hd : Traced start past d) (h : d.perform action = some d') :
    Traced start (past ++ [action]) d' := by
  refine ⟨(run_concat hd.reached).trans h, fun i other hother => ?_⟩
  have step := perform_cases h
  generalize events action d d' = log at step
  cases step with
  | store | announce _ | failActivations | aside _ _ _ _ _ _ => exact (hd.calls i other hother).append _
  | arrive =>
      rcases place_arrive_cases (call?_eq_some_iff.mp hother) with ⟨-, hnew⟩ | ⟨-, hold⟩
      · cases hnew
        trivial
      · exact (hd.calls i other (call?_eq_some_iff.mpr hold)).append _
  | @call id timer c events gateway c' hc hstep =>
      rcases call?_setCall_cases (d := { d with gateway }) (lt_of_call? hc) hother with ⟨rfl, -⟩ | ⟨-, hold⟩
      · exact hd.ownStep hc h hother
      · exact (hd.calls i other hold).append _
  | giveUp hc _ =>
      rcases call?_setCall_cases (lt_of_call? hc) hother with ⟨-, hset⟩ | ⟨-, hold⟩
      · cases hset
      · exact (hd.calls i other hold).append _

/-- All calls of a run can be traced. -/
theorem run_traced (h : run actions { gateway, now } = some d) : Traced { gateway, now } actions d := by
  refine run_preserves (P := fun past _ => Traced { gateway, now } past) (fun hd => hd.perform) [] [] ⟨rfl, ?_⟩ h
  intro id c hc
  cases hc

/-- **How long a call is held.** Whatever was pushed, scripted and called in whatever order:

* a call that ended without a response had gone on hold and was held until it ended: for its whole long poll, or until
  it was outrun, that is, it was told of a push when nothing was pending any more, another call having been served,
* a held call ends without a response in its next step if and only if its time is up, unless it was told of a push and
  that is what it notices, or it is outrun, however early that is. -/
theorem run_holds (h : run actions { gateway, now } = some d) :
    (∀ id c, d.call? id = some c → c.answer? = some (.ok []) →
      ∃ seen first last, Hold { gateway, now } actions id seen c first last ∧
        (Time.after first.now c.longPoll ≤ last.now ∨
          last.Outrun seen ∧ ∃ other piece, other ≠ id ∧ .served other piece ∈ history actions { gateway, now })) ∧
    ∀ id c seen due, d.call? id = some c → c.phase = .held seen due → ∀ timer,
      (∃ d' c', d.perform (.step id timer) = some d' ∧ d'.call? id = some c' ∧ c'.phase = .answered (.ok [])) ↔
        due ≤ d.now ∧ (timer = true ∨ d.gateway.pushes ≤ seen) ∨ d.Outrun seen := by
  refine ⟨?_, fun id c seen due hc hphase timer => ends_empty_iff hc hphase⟩
  intro id c hc hanswer
  have htraced := (run_traced h).calls id c hc
  unfold Call.answer? at hanswer
  unfold CallTraced at htraced
  split at hanswer
  · rename_i answer hphase
    cases hanswer
    rw [hphase] at htraced
    obtain ⟨seen, first, last, hhold, hlast⟩ := htraced
    refine ⟨seen, first, last, hhold, hlast.imp_right fun houtrun => ⟨houtrun, ?_⟩⟩
    obtain ⟨past, timer, later, rfl, hlast, -⟩ := hhold.ended
    obtain ⟨other, piece, hother, hserved⟩ := served_of_outrun hlast hhold.held rfl houtrun
    refine ⟨other, piece, hother, ?_⟩
    rw [history_append hlast]
    exact List.mem_append_left _ hserved
  · cases hanswer

/-- Two calls are held from tick 5 on, for a second each. -/
def twoHeld : List DeskAction :=
  [.pass 5, .arrive { worker := "a", maxJobs := 1, requestTimeout := 1000 }, .step 0 false, .step 0 false, .step 0 false,
    .arrive { worker := "b", maxJobs := 1, requestTimeout := 1000 }, .step 1 false, .step 1 false, .step 1 false]

/-- A call that nothing is pushed for is held for its second. -/
theorem holds_for_a_second :
    ∃ d c, run (twoHeld ++ [.pass 1000, .step 1 false]) {} = some d ∧ d.call? 1 = some c ∧
      c.answer? = some (.ok []) ∧ ∃ seen first last,
        Hold {} (twoHeld ++ [.pass 1000, .step 1 false]) 1 seen c first last ∧
        (Time.after first.now c.longPoll ≤ last.now ∨ last.Outrun seen ∧ ∃ other piece, other ≠ 1 ∧
          .served other piece ∈ history (twoHeld ++ [.pass 1000, .step 1 false]) {}) := by
  obtain ⟨d, hrun⟩ : ∃ d, run (twoHeld ++ [.pass 1000, .step 1 false]) {} = some d := ⟨_, rfl⟩
  obtain ⟨hends, -⟩ := run_holds hrun
  cases hrun
  exact ⟨_, _, rfl, rfl, rfl, hends 1 _ rfl rfl⟩

/-- A push that one of the two takes ends the hold of the other after ten ticks of its second. -/
theorem outrun_after_ten_ticks :
    ∃ d c d' c', run (twoHeld ++ [.pass 10, .store [{ key := 1 }], .announce, .step 0 false]) {} = some d ∧
      d.call? 1 = some c ∧ c.phase = .held 0 (Time.after 5 c.longPoll) ∧ Time.after 5 c.longPoll = 1005 ∧ d.now = 15 ∧
      d.perform (.step 1 false) = some d' ∧ d'.call? 1 = some c' ∧ c'.phase = .answered (.ok []) :=
  ⟨_, _, _, _, rfl, rfl, rfl, rfl, rfl, rfl, rfl, rfl⟩

end Desk

end JobWorker
