import JobWorker.Proofs.Desk.Step

/-!
# `JobWorker.Proofs.Desk.Account` — the books of a desk

What was scripted is used up from the front: batches piece by piece, failures one by one. What happened to a single
call can be told from where it stands, and the other way round. And a call that is held has been told of every batch
that came after it looked, or is about to be. Each of the three is kept by every line of `Desk.Step`.

## Contents
- **Stock.** `Gateway.Stocked`, `Desk.Step.stocked`.
- **Calls.** `Call.Told`, `Desk.Told`, `Desk.Step.told`.
- **Wake-ups.** `Desk.Awake`, `Desk.Step.awake`.
-/

namespace JobWorker

open DeskLog

/-! ## Stock -/

/-- What was scripted, against what was served, refused and recorded and what is pending. -/
structure Gateway.Stocked (script : List Batch) (failures : List Status) (requests : List ActivationRequest)
    (log : List DeskEvent) (g : Gateway) : Prop where
  whole : (pieces log).flatten ++ g.batches.flatten = script.flatten
  served : ∀ piece ∈ pieces log, ∃ batch ∈ script, piece <:+: batch
  pending : ∀ kept ∈ g.batches, ∃ batch ∈ script, kept <:+ batch
  failures : refused log ++ g.activationFailures = failures
  requests : g.requests = requests ++ recorded log

section Stock

variable {d d' : Desk} {g g' : Gateway} {action : DeskAction} {log events : List DeskEvent} {script : List Batch}
variable {failures : List Status} {requests : List ActivationRequest}

namespace Gateway

/-- The piece that is served and what is left of its batch are the batch. -/
theorem piece_append_rest (n : Nat) (batch : Batch) (later : List Batch) :
    batch.take n ++ (rest n batch later).flatten = batch ++ later.flatten := by
  unfold rest
  split
  · rw [List.flatten_cons, ← List.append_assoc, List.take_append_drop]
  · rename_i hn
    rw [List.take_of_length_le (Nat.le_of_not_lt hn)]

/-- What is left of a batch is an end of it. -/
theorem suffix_of_mem_rest {n : Nat} {batch kept : Batch} {later : List Batch}
    (hmem : kept ∈ rest n batch later) : kept <:+ batch ∨ kept ∈ later := by
  unfold rest at hmem
  split at hmem
  · rcases List.mem_cons.mp hmem with rfl | hmem
    · exact .inl (List.drop_suffix n batch)
    · exact .inr hmem
  · exact .inr hmem

/-- A call's own step keeps the stock. -/
theorem Stocked.call {id : Nat} {now : Time} {c c' : Call} (hg : g.Stocked script failures requests log)
    (step : c.Step now id g events g' c') : g'.Stocked script failures requests (log ++ events) := by
  obtain ⟨whole, served, pending, hfailures, hrequests⟩ := hg
  cases step with
  | record _ hnone =>
      refine ⟨?_, ?_, pending, ?_, ?_⟩
      · simpa [pieces] using whole
      · simpa [pieces] using served
      · simpa [refused] using hfailures
      · simp [recorded, hrequests]
  | @refuse status later _ hnext =>
      refine ⟨?_, ?_, pending, ?_, ?_⟩
      · simpa [pieces] using whole
      · simpa [pieces] using served
      · rw [hnext] at hfailures
        simpa [refused] using hfailures
      · simp [recorded, hrequests]
  | @serve batch later _ hbatches =>
      rw [hbatches] at whole pending
      obtain ⟨source, hsource, hsuffix⟩ := pending batch List.mem_cons_self
      refine ⟨?_, ?_, ?_, ?_, ?_⟩
      · rw [List.flatten_cons] at whole
        simpa [pieces, piece_append_rest] using whole
      · intro piece hmem
        rw [pieces_append] at hmem
        rcases List.mem_append.mp hmem with hold | hnew
        · exact served piece hold
        · rw [List.mem_singleton.mp hnew]
          exact ⟨source, hsource, (List.take_prefix _ batch).isInfix.trans hsuffix.isInfix⟩
      · intro kept hmem
        rcases suffix_of_mem_rest hmem with hend | hlater
        · exact ⟨source, hsource, hend.trans hsuffix⟩
        · exact pending kept (List.mem_cons_of_mem _ hlater)
      · simpa [refused] using hfailures
      · simpa [recorded] using hrequests
  | note _ | hold _ _ | leave _ =>
      rw [List.append_nil]
      exact ⟨whole, served, pending, hfailures, hrequests⟩

end Gateway

/-- **Every step keeps the stock.** -/
theorem Desk.Step.stocked (step : d.Step action events d') (hd : d.gateway.Stocked script failures requests log) :
    d'.gateway.Stocked (script ++ action.script) (failures ++ action.failures) requests (log ++ events) := by
  cases step with
  | @store batch =>
      obtain ⟨whole, served, pending, hfailures, hrequests⟩ := hd
      rw [List.append_nil]
      refine ⟨?_, ?_, ?_, ?_, hrequests⟩
      · show (pieces log).flatten ++ (d.gateway.batches ++ [batch]).flatten = (script ++ [batch]).flatten
        rw [List.flatten_append, List.flatten_append, ← whole, List.append_assoc]
      · intro piece hmem
        obtain ⟨source, hsource, hinfix⟩ := served piece hmem
        exact ⟨source, List.mem_append_left _ hsource, hinfix⟩
      · intro kept hmem
        rcases List.mem_append.mp hmem with hold | hnew
        · obtain ⟨source, hsource, hsuffix⟩ := pending kept hold
          exact ⟨source, List.mem_append_left _ hsource, hsuffix⟩
        · exact ⟨kept, List.mem_append_right _ hnew, List.suffix_refl kept⟩
      · exact hfailures.trans (List.append_nil _).symm
  | @failActivations status times =>
      rw [List.append_nil]
      refine ⟨?_, ?_, ?_, ?_, hd.requests⟩
      · exact hd.whole.trans (congrArg List.flatten (List.append_nil script).symm)
      · exact (List.append_nil script).symm ▸ hd.served
      · exact (List.append_nil script).symm ▸ hd.pending
      · show refused log ++ (d.gateway.activationFailures ++ List.replicate times status) = _
        rw [← List.append_assoc, hd.failures]
        rfl
  | aside hscript hnone hbatches hcodes hrequests _ =>
      rw [hscript, hnone, List.append_nil, List.append_nil, List.append_nil]
      refine ⟨?_, hd.served, ?_, ?_, ?_⟩
      · rw [hbatches]
        exact hd.whole
      · rw [hbatches]
        exact hd.pending
      · rw [hcodes]
        exact hd.failures
      · rw [hrequests]
        exact hd.requests
  | call _ hstep =>
      simp only [DeskAction.script, DeskAction.failures, List.append_nil]
      exact hd.call hstep
  | announce _ | arrive | giveUp _ _ =>
      simp only [DeskAction.script, DeskAction.failures, List.append_nil]
      exact ⟨hd.whole, hd.served, hd.pending, hd.failures, hd.requests⟩

end Stock

/-! ## Calls -/

/-- What happened to a call, from where it stands. Its answer is an error that was scripted, or it has one response
at most: a piece of a batch that was served to it, handed out to its worker, and no longer than it asked for. -/
def Call.Told (id : Nat) (c : Call) (events : List DeskEvent) : Prop :=
  match c.phase with
  | .arriving                           => events = []
  | .accepted | .looking _ | .held _ _  => events = [.recorded id c.request]
  | .answered (.error e)                => ∃ status, e = .rpc status "scripted activation failure" ∧
      events = [.recorded id c.request, .refused id status]
  | .answered (.ok responses)           => responses = [] ∧ events = [.recorded id c.request] ∨
      ∃ piece, responses = [handTo c.request.worker piece] ∧ piece.length ≤ c.wanted ∧
        events = [.recorded id c.request, .served id piece]

/-- What happened to each call: to those that are there, to those that were given up, and to those to come. -/
structure Desk.Told (log : List DeskEvent) (d : Desk) : Prop where
  calls : ∀ id c, d.call? id = some c → c.Told id (own id log)
  gone : ∀ id : Nat, d.calls[id]? = some none → ∃ request, own id log = [.recorded id request]
  future : ∀ id, d.calls.length ≤ id → own id log = []

section Calls

variable {d d' : Desk} {g g' : Gateway} {c c' : Call} {now : Time} {id i : Nat} {action : DeskAction}
variable {log events before : List DeskEvent}

/-- The events of a call's own step are its own. -/
theorem Call.Step.id_eq (step : c.Step now id g events g' c') : ∀ event ∈ events, event.id = id := by
  intro event hmem
  cases step with
  | record _ _ | serve _ _ =>
      rw [List.mem_singleton.mp hmem]
      rfl
  | refuse _ _ =>
      rcases List.mem_cons.mp hmem with rfl | hmem
      · rfl
      · rw [List.mem_singleton.mp hmem]
        rfl
  | note _ | hold _ _ | leave _ => cases hmem

theorem Call.Step.own_self (step : c.Step now id g events g' c') : own id events = events := by
  rw [own, List.filter_eq_self]
  intro event hmem
  rw [step.id_eq event hmem]
  exact beq_self_eq_true id

theorem Call.Step.own_other (step : c.Step now id g events g' c') (hne : i ≠ id) : own i events = [] := by
  rw [own, List.filter_eq_nil_iff]
  intro event hmem heq
  rw [step.id_eq event hmem] at heq
  exact hne (eq_of_beq heq).symm

/-- What a call is told by its own step it can tell afterwards. -/
theorem Call.Step.told (step : c.Step now id g events g' c') (hc : c.Told id before) :
    c'.Told id (before ++ events) := by
  obtain ⟨request, phase⟩ := c
  cases step with
  | record hphase _ =>
      cases hphase
      rw [show before = [] from hc]
      rfl
  | @refuse status later hphase _ =>
      cases hphase
      rw [show before = [] from hc]
      exact ⟨status, rfl, rfl⟩
  | note hphase | hold hphase _ =>
      cases hphase
      rw [List.append_nil]
      exact hc
  | @serve batch later hlooks _ =>
      have hrecorded : before = [.recorded id request] := by
        obtain ⟨seen, hphase | ⟨due, hphase⟩⟩ := hlooks
        · cases hphase
          exact hc
        · cases hphase
          exact hc
      rw [hrecorded]
      exact .inr ⟨_, rfl, List.length_take_le _ _, rfl⟩
  | leave hphase =>
      cases hphase
      rw [List.append_nil]
      exact .inl ⟨rfl, hc⟩

namespace Desk

/-- A step that has no events and leaves all calls where they are changes nothing about them. -/
theorem Told.keep (hd : d.Told log) (hcalls : d'.calls = d.calls) : d'.Told (log ++ []) := by
  obtain ⟨calls, gone, future⟩ := hd
  rw [List.append_nil]
  refine ⟨?_, ?_, ?_⟩
  · intro id c hc
    rw [call?, hcalls] at hc
    exact calls id c hc
  · intro id hgone
    rw [hcalls] at hgone
    exact gone id hgone
  · intro id hid
    rw [hcalls] at hid
    exact future id hid

/-- **Every step tells each call what happens to it,** and only that one. -/
theorem Step.told (step : d.Step action events d') (hd : d.Told log) : d'.Told (log ++ events) := by
  cases step with
  | store | announce _ | failActivations | aside _ _ _ _ _ _ => exact hd.keep rfl
  | @arrive request =>
      obtain ⟨calls, gone, future⟩ := hd
      rw [List.append_nil]
      refine ⟨?_, ?_, ?_⟩
      · intro id c hc
        rcases place_arrive_cases (call?_eq_some_iff.mp hc) with ⟨rfl, hnew⟩ | ⟨-, hold⟩
        · cases hnew
          exact future _ (Nat.le_refl _)
        · exact calls id c (call?_eq_some_iff.mpr hold)
      · intro id hgone
        rcases place_arrive_cases hgone with ⟨-, hnew⟩ | ⟨-, hold⟩
        · cases hnew
        · exact gone id hold
      · intro id hid
        have hlength : (d.calls ++ [some ({ request := request } : Call)]).length ≤ id := hid
        rw [List.length_append, List.length_singleton] at hlength
        exact future id (Nat.le_of_succ_le hlength)
  | @call id timer c events gateway c' hc hstep =>
      obtain ⟨calls, gone, future⟩ := hd
      have hlt := lt_of_call? hc
      refine ⟨?_, ?_, ?_⟩
      · intro i other hother
        rw [own_append]
        rcases call?_setCall_cases (d := { d with gateway }) hlt hother with ⟨rfl, hset⟩ | ⟨hi, hold⟩
        · cases hset
          rw [hstep.own_self]
          exact hstep.told (calls i c hc)
        · rw [hstep.own_other hi, List.append_nil]
          exact calls i other hold
      · intro i hgone
        have hplace : (d.calls.set id (some c'))[i]? = some none := hgone
        by_cases hi : i = id
        · subst hi
          rw [List.getElem?_set_self hlt] at hplace
          cases hplace
        · rw [List.getElem?_set_ne (Ne.symm hi)] at hplace
          rw [own_append, hstep.own_other hi, List.append_nil]
          exact gone i hplace
      · intro i hi
        have hlength : (d.calls.set id (some c')).length ≤ i := hi
        rw [List.length_set] at hlength
        have hne : i ≠ id := by omega
        rw [own_append, hstep.own_other hne, List.append_nil]
        exact future i hlength
  | @giveUp id c seen due hc hphase =>
      obtain ⟨calls, gone, future⟩ := hd
      have hlt := lt_of_call? hc
      rw [List.append_nil]
      refine ⟨?_, ?_, ?_⟩
      · intro i other hother
        rcases call?_setCall_cases hlt hother with ⟨-, hset⟩ | ⟨-, hold⟩
        · cases hset
        · exact calls i other hold
      · intro i hgone
        have hplace : (d.calls.set id none)[i]? = some none := hgone
        by_cases hi : i = id
        · subst hi
          have htold := calls i c hc
          rw [Call.Told, hphase] at htold
          exact ⟨c.request, htold⟩
        · rw [List.getElem?_set_ne (Ne.symm hi)] at hplace
          exact gone i hplace
      · intro i hi
        have hlength : (d.calls.set id none).length ≤ i := hi
        rw [List.length_set] at hlength
        exact future i hlength

end Desk

end Calls

/-! ## Wake-ups -/

/-- A call that looks knows of all announcements that there were, or of fewer. One that is held and knows of all has
missed nothing: no batch is pending, unless a push is still to announce one. -/
def Call.Awake (g : Gateway) (unannounced : Nat) (c : Call) : Prop :=
  match c.phase with
  | .looking seen => seen ≤ g.pushes
  | .held seen _  => seen ≤ g.pushes ∧ (seen < g.pushes ∨ g.batches = [] ∨ 0 < unannounced)
  | _             => True

/-- No call at a desk has missed anything. -/
def Desk.Awake (d : Desk) : Prop := ∀ id c, d.call? id = some c → c.Awake d.gateway d.unannounced

section Wakeups

variable {d d' : Desk} {g g' : Gateway} {n : Nat} {c c' : Call} {now : Time} {id : Nat} {action : DeskAction}
variable {events : List DeskEvent}

/-- What a call has not missed it goes on not to have missed, as long as a batch that comes is announced. -/
theorem Call.Awake.mono (g' : Gateway) (n' : Nat) (hc : c.Awake g n) (hpushes : g.pushes ≤ g'.pushes)
    (hbatches : g.batches = [] → g.pushes < g'.pushes ∨ g'.batches = [] ∨ 0 < n')
    (hunannounced : 0 < n → g.pushes < g'.pushes ∨ 0 < n') : c.Awake g' n' := by
  unfold Awake at hc ⊢
  cases hphase : c.phase with
  | looking seen =>
      rw [hphase] at hc
      exact Nat.le_trans hc hpushes
  | held seen due =>
      rw [hphase] at hc
      obtain ⟨hseen, htold⟩ := hc
      refine ⟨Nat.le_trans hseen hpushes, ?_⟩
      rcases htold with hnew | hnone | hpending
      · exact .inl (Nat.lt_of_lt_of_le hnew hpushes)
      · exact (hbatches hnone).imp_left (Nat.lt_of_le_of_lt hseen)
      · rcases hunannounced hpending with hnew | hpending
        · exact .inl (Nat.lt_of_le_of_lt hseen hnew)
        · exact .inr (.inr hpending)
  | arriving | accepted | answered _ => trivial

/-- A call's own step leaves the announcements alone, and takes nothing where nothing is pending. -/
theorem Call.Step.frame (step : c.Step now id g events g' c') :
    g'.pushes = g.pushes ∧ (g.batches = [] → g'.batches = []) := by
  cases step with
  | serve _ hbatches =>
      refine ⟨rfl, fun hnone => ?_⟩
      rw [hbatches] at hnone
      cases hnone
  | _ => exact ⟨rfl, fun hnone => hnone⟩

/-- A call that goes on hold has just found nothing pending. -/
theorem Call.Step.awake (step : c.Step now id g events g' c') (hc : c.Awake g n) : c'.Awake g' n := by
  obtain ⟨request, phase⟩ := c
  cases step with
  | note _ => exact Nat.le_refl g.pushes
  | hold hphase hnone =>
      cases hphase
      exact ⟨hc, .inr (.inl hnone)⟩
  | record _ _ | refuse _ _ | serve _ _ | leave _ => trivial

/-- **Every step keeps all calls awake.** -/
theorem Desk.Step.awake (step : d.Step action events d') (hd : d.Awake) : d'.Awake := by
  cases step with
  | @store batch =>
      intro id c hc
      have hpending : 0 < d.unannounced + 1 := Nat.succ_pos _
      exact (hd id c hc).mono (d.gateway.store batch) (d.unannounced + 1) (Nat.le_refl _)
        (fun _ => .inr (.inr hpending)) fun _ => .inr hpending
  | announce _ =>
      intro id c hc
      have hmore : d.gateway.pushes < d.gateway.announce.pushes := Nat.lt_succ_self _
      exact (hd id c hc).mono d.gateway.announce (d.unannounced - 1) (Nat.le_of_lt hmore) (fun _ => .inl hmore)
        fun _ => .inl hmore
  | @failActivations status times =>
      intro id c hc
      exact (hd id c hc).mono (d.gateway.failActivations status times) d.unannounced (Nat.le_refl _)
        (fun hnone => .inr (.inl hnone)) .inr
  | @aside action gateway now _ _ hbatches _ _ hpushes =>
      intro id c hc
      refine (hd id c hc).mono gateway d.unannounced (Nat.le_of_eq hpushes.symm) (fun hnone => .inr (.inl ?_)) .inr
      exact hbatches.trans hnone
  | @arrive request =>
      intro id c hc
      rcases Desk.place_arrive_cases (Desk.call?_eq_some_iff.mp hc) with ⟨-, hnew⟩ | ⟨-, hold⟩
      · cases hnew
        trivial
      · exact hd id c (Desk.call?_eq_some_iff.mpr hold)
  | @call id timer c events gateway c' hc hstep =>
      obtain ⟨hpushes, hbatches⟩ := hstep.frame
      intro i other hother
      rcases Desk.call?_setCall_cases (d := { d with gateway }) (Desk.lt_of_call? hc) hother with
        ⟨rfl, hset⟩ | ⟨-, hold⟩
      · cases hset
        exact hstep.awake (hd i c hc)
      · exact (hd i other hold).mono gateway d.unannounced (Nat.le_of_eq hpushes.symm)
          (fun hnone => .inr (.inl (hbatches hnone))) .inr
  | @giveUp id c seen due hc _ =>
      intro i other hother
      rcases Desk.call?_setCall_cases (Desk.lt_of_call? hc) hother with ⟨-, hset⟩ | ⟨-, hold⟩
      · cases hset
      · exact hd i other hold

end Wakeups

end JobWorker
