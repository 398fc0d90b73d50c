import JobWorker.Proofs.Ledger.Balance

/-!
# `JobWorker.Proofs.Ledger.Fate` — what is still to come of a handling

A handler that failed decides what comes of its handling; one that came back well leaves that to what the
handling finds when it looks. Once it is **decided**, nothing that follows is a choice any more: which report is
made, if any, and that the job is counted down. What is still **due** of a handling is then a function of its phase,
and each step either leaves it as it is or does a part of it. So what a run does for a handling is known from its
beginning, as far as the run goes.

## Contents
- **Deeds.** `History.reports`, `History.discounts` of one handling.
- **Dues.** `HandlingPhase.isDecided`, `Handling.reportsDue`, and those of a ledger.
- **The law.** `Ledger.Step.due`, `Ledger.Run.due`, `Worker.run_fate`.
- **Before that.** `Ledger.Untouched`: nothing is done for a handling before it is decided what comes of it.
-/

namespace JobWorker

/-! ## Deeds -/

namespace History

variable (id : Nat) (log log' : List Event)

/-- The reports of a handling, in order. -/
def reports : List CommandRequest :=
  log.filterMap fun
    | .advanced i _ _ (.reporting request) => if i = id then some request else none
    | _                                    => none

/-- How often the job of a handling was counted down. -/
def discounts : Nat := (passings .discounted log).countP (·.2 == id)

@[simp] theorem reports_append : reports id (log ++ log') = reports id log ++ reports id log' :=
  List.filterMap_append

variable {id} in
/-- The steps of another handling do not count. -/
theorem advanced_other {i : Nat} (hid : i ≠ id) (job : Job) (before after : HandlingPhase) :
    reports id [.advanced i job before after] = [] ∧ discounts id [.advanced i job before after] = 0 := by
  refine ⟨?_, ?_⟩
  · unfold reports
    cases after <;> simp [hid]
  · unfold discounts passings
    cases before.isPast .discounted <;> cases after.isPast .discounted <;> simp [hid]

@[simp] theorem discounts_append : discounts id (log ++ log') = discounts id log + discounts id log' := by
  rw [discounts, passings_append, List.countP_append]
  rfl

end History

/-! ## Dues -/

/-- Whether it is decided what comes of a handling: its handler failed, or the handling has looked. -/
def HandlingPhase.isDecided : HandlingPhase → Bool
  | .starting | .calling | .running | .returned (.ok ()) => false
  | _                                                    => true

namespace Handling

/-- The report that is still to be made of a handling whose handler has come back, as things stand. -/
def reportsDue (config : WorkerConfig) (h : Handling) : List CommandRequest :=
  match h.phase with
  | .returned result => (h.report? config result).toList
  | _                => []

variable {config : WorkerConfig} {h h' : Handling}

/-- What is decided stays decided. -/
theorem Next.isDecided (next : h.Next config h') (hdecided : h.phase.isDecided = true) :
    h'.phase.isDecided = true := by
  cases next with
  | call hp | finish _ hp => rw [hp] at hdecided; cases hdecided
  | begin hp => rcases hp with hp | hp <;> (rw [hp] at hdecided; cases hdecided)
  | report | skip | answer | discount | release => rfl

/-- What is not decided was not decided before, and the step did nothing. -/
theorem Next.undecided (next : h.Next config h') (hopen : h'.phase.isDecided = false) :
    h.phase.isDecided = false ∧ History.reports h.id [.advanced h.id h.job h.phase h'.phase] = [] ∧
      History.discounts h.id [.advanced h.id h.job h.phase h'.phase] = 0 := by
  cases next with
  | call hp =>
      refine ⟨?_, rfl, by simp [History.discounts, History.passings, HandlingPhase.isPast]⟩
      rw [hp]; rfl
  | begin hp =>
      refine ⟨?_, rfl, by simp [History.discounts, History.passings, HandlingPhase.isPast]⟩
      rcases hp with hp | hp <;> (rw [hp]; rfl)
  | finish result hp =>
      refine ⟨?_, rfl, by simp [History.discounts, History.passings, HandlingPhase.isPast]⟩
      rw [hp]; rfl
  | report | skip | answer | discount | release => cases hopen

/-- A use of the client changes nothing about what is decided. -/
theorem reportsDue_of_use (hdecided : h.phase.isDecided = true) :
    reportsDue config { h with used := true } = h.reportsDue config := by
  obtain ⟨id, job, used, phase⟩ := h
  cases phase with
  | returned result =>
      cases result with
      | error failure => rfl
      | ok => cases hdecided
  | _ => rfl

/-- A report is made if and only if it was due. -/
theorem Next.reports_due (next : h.Next config h') (hdecided : h.phase.isDecided = true) :
    History.reports h.id [.advanced h.id h.job h.phase h'.phase] ++ h'.reportsDue config =
      h.reportsDue config := by
  unfold reportsDue
  cases next with
  | call hp | finish _ hp => rw [hp] at hdecided; cases hdecided
  | begin hp => rcases hp with hp | hp <;> (rw [hp] at hdecided; cases hdecided)
  | report hp hreport | skip hp hreport => simp [History.reports, hp, hreport]
  | answer hp | discount hp | release hp => simp [History.reports, hp]

/-- A job is counted down if and only if it was due. -/
theorem Next.discounts_due (next : h.Next config h') :
    History.discounts h.id [.advanced h.id h.job h.phase h'.phase] +
        [h'].countP (fun h => !h.phase.isPast .discounted) =
      [h].countP fun h => !h.phase.isPast .discounted := by
  by_cases hm : h.phase.isPast .discounted = true
  · have hm' := next.isPast_of_isPast hm
    simp [History.discounts, History.passings, hm, hm']
  · simp only [Bool.not_eq_true] at hm
    cases hm' : h'.phase.isPast .discounted <;>
      simp [History.discounts, History.passings, hm, hm']

end Handling

/-! ## The law -/

namespace Ledger

/-- The handling with a number, if it is still there. -/
def own (id : Nat) (L : Ledger) : List Handling := L.handlings.filter (·.id == id)

/-- What is still to be reported of the handling with a number. -/
def reportsDue (config : WorkerConfig) (id : Nat) (L : Ledger) : List CommandRequest :=
  (L.own id).flatMap (·.reportsDue config)

/-- How often the job of the handling with a number is still to be counted down. -/
def discountsDue (id : Nat) (L : Ledger) : Nat :=
  (L.own id).countP fun h => !h.phase.isPast .discounted

/-- The handling with a number has begun, and if it is still there it is decided what comes of it. -/
structure Decided (id : Nat) (L : Ledger) : Prop where
  begun : id < L.launched
  decided : ∀ h ∈ L.own id, h.phase.isDecided = true

variable {config : WorkerConfig} {L L' : Ledger} {log : List Event} {id : Nat}

section Own

variable {front rest : List Handling} {h : Handling}

/-- Handlings with other numbers do not matter. -/
theorem filter_other (hid : h.id ≠ id) :
    (front ++ h :: rest).filter (·.id == id) = (front ++ rest).filter (·.id == id) := by
  rw [List.filter_append, List.filter_cons_of_neg (by simpa using hid), ← List.filter_append]

/-- Numbers are distinct, so that a number names one handling. -/
theorem Numbered.own_eq (hn : L.Numbered) (hh : L.handlings = front ++ h :: rest) :
    front.filter (·.id == h.id) = [] ∧ rest.filter (·.id == h.id) = [] ∧ L.own h.id = [h] := by
  have distinct := hn.distinct
  rw [hh, List.map_append, List.map_cons, List.nodup_append] at distinct
  obtain ⟨-, hback, hfront⟩ := distinct
  have hnot := (List.nodup_cons.mp hback).1
  have front_nil : front.filter (·.id == h.id) = [] := by
    rw [List.filter_eq_nil_iff]
    intro other hmem heq
    exact hfront other.id (List.mem_map_of_mem hmem) h.id List.mem_cons_self (eq_of_beq heq)
  have rest_nil : rest.filter (·.id == h.id) = [] := by
    rw [List.filter_eq_nil_iff]
    intro other hmem heq
    exact hnot (eq_of_beq heq ▸ List.mem_map_of_mem hmem)
  refine ⟨front_nil, rest_nil, ?_⟩
  rw [own, hh, List.filter_append, List.filter_cons_of_pos (by simp), front_nil, rest_nil]
  rfl

/-- The others are there too, with other numbers. -/
theorem Numbered.others (hn : L.Numbered) (hh : L.handlings = front ++ h :: rest) {other : Handling}
    (hmem : other ∈ front ++ rest) : other ∈ L.handlings ∧ h.id ≠ other.id := by
  obtain ⟨front_nil, rest_nil, -⟩ := hn.own_eq hh
  refine ⟨mem_of_mem_others hh hmem, fun hid => ?_⟩
  rcases List.mem_append.mp hmem with hfront | hrest
  · exact List.filter_eq_nil_iff.mp front_nil other hfront (by simpa using hid.symm)
  · exact List.filter_eq_nil_iff.mp rest_nil other hrest (by simpa using hid.symm)

end Own

/-- What a step does to the handling with a number, once it is decided what comes of it: nothing, a use of its
client, its next step, or its end. -/
theorem Step.own_cases (step : Step config L log L') (hn : L.Numbered) (hL : L.Decided id) :
    (L'.own id = L.own id ∧ History.reports id log = [] ∧ History.discounts id log = 0) ∨
      (∃ h, L.own id = [h] ∧ L'.own id = [{ h with used := true }] ∧ log = [.used h.id h.phase]) ∨
      (∃ h h', h.id = id ∧ L.own id = [h] ∧ L'.own id = [h'] ∧ h.Next config h' ∧
        log = [.advanced h.id h.job h.phase h'.phase]) ∨
      ∃ h, L.own id = [h] ∧ L'.own id = [] ∧ h.phase = .releasing ∧ log = [] := by
  obtain ⟨begun, decided⟩ := hL
  cases step with
  | quiet | ask | hangUp | receive | count | store | take => exact .inl ⟨rfl, rfl, rfl⟩
  | launch hheld =>
      refine .inl ⟨?_, rfl, rfl⟩
      show (L.handlings ++ [_]).filter _ = L.handlings.filter _
      rw [List.filter_append, List.filter_cons_of_neg (by simpa using Nat.ne_of_gt begun), List.filter_nil,
        List.append_nil]
  | @use front h rest hh hp =>
      by_cases hid : h.id = id
      · subst hid
        obtain ⟨front_nil, rest_nil, hown⟩ := hn.own_eq hh
        refine .inr (.inl ⟨h, hown, ?_, rfl⟩)
        show (front ++ { h with used := true } :: rest).filter _ = _
        rw [List.filter_append, List.filter_cons_of_pos (by simp), front_nil, rest_nil]
        rfl
      · refine .inl ⟨?_, rfl, rfl⟩
        show (front ++ { h with used := true } :: rest).filter _ = L.handlings.filter _
        rw [hh, filter_other hid, filter_other (h := { h with used := true }) hid]
  | @advance front h h' rest hh next =>
      by_cases hid : h.id = id
      · subst hid
        obtain ⟨front_nil, rest_nil, hown⟩ := hn.own_eq hh
        refine .inr (.inr (.inl ⟨h, h', rfl, hown, ?_, next, rfl⟩))
        show (front ++ h' :: rest).filter _ = [h']
        rw [List.filter_append, List.filter_cons_of_pos (by simpa using next.id_eq), front_nil, rest_nil]
        rfl
      · obtain ⟨hreports, hdiscounts⟩ := History.advanced_other hid h.job h.phase h'.phase
        refine .inl ⟨?_, hreports, hdiscounts⟩
        show (front ++ h' :: rest).filter _ = L.handlings.filter _
        rw [hh, filter_other hid, filter_other (next.id_eq ▸ hid)]
  | @retire front h rest hh hp =>
      by_cases hid : h.id = id
      · subst hid
        obtain ⟨front_nil, rest_nil, hown⟩ := hn.own_eq hh
        refine .inr (.inr (.inr ⟨h, hown, ?_, hp, rfl⟩))
        show (front ++ rest).filter _ = []
        rw [List.filter_append, front_nil, rest_nil]
        rfl
      · refine .inl ⟨?_, rfl, rfl⟩
        show (front ++ rest).filter _ = L.handlings.filter _
        rw [hh, filter_other hid]
  | @collapse front h rest hh hp =>
      by_cases hid : h.id = id
      · -- nothing is decided about one that can collapse
        subst hid
        have hdecided := decided h (by rw [(hn.own_eq hh).2.2]; exact List.mem_singleton_self h)
        rw [hp] at hdecided
        cases hdecided
      · refine .inl ⟨?_, rfl, rfl⟩
        show (front ++ rest).filter _ = L.handlings.filter _
        rw [hh, filter_other hid]

theorem Step.launched_le (step : Step config L log L') : L.launched ≤ L'.launched := by
  cases step with
  | launch => exact Nat.le_succ _
  | _ => exact Nat.le_refl _

/-- What is decided stays decided. -/
theorem Step.decided (step : Step config L log L') (hn : L.Numbered) (hL : L.Decided id) : L'.Decided id := by
  refine ⟨Nat.lt_of_lt_of_le hL.begun step.launched_le, fun other hmem => ?_⟩
  rcases step.own_cases hn hL with ⟨hsame, -, -⟩ | ⟨h, hown, hown', -⟩ | ⟨h, h', -, hown, hown', next, -⟩ |
    ⟨h, -, hown', -, -⟩
  · exact hL.decided other (hsame ▸ hmem)
  · rw [hown', List.mem_singleton] at hmem
    rw [hmem]
    exact hL.decided h (by rw [hown]; exact List.mem_singleton_self h)
  · rw [hown', List.mem_singleton] at hmem
    rw [hmem]
    exact next.isDecided (hL.decided h (by rw [hown]; exact List.mem_singleton_self h))
  · rw [hown'] at hmem
    cases hmem

/-- **What a step does for a handling is what was due and is due no more.** -/
theorem Step.due (step : Step config L log L') (hn : L.Numbered) (hL : L.Decided id) :
    History.reports id log ++ L'.reportsDue config id = L.reportsDue config id ∧
      History.discounts id log + L'.discountsDue id = L.discountsDue id := by
  unfold reportsDue discountsDue
  rcases step.own_cases hn hL with ⟨hsame, hreports, hdiscounts⟩ | ⟨h, hown, hown', rfl⟩ |
    ⟨h, h', rfl, hown, hown', next, rfl⟩ | ⟨h, hown, hown', hp, rfl⟩
  · rw [hsame, hreports, hdiscounts]
    exact ⟨rfl, Nat.zero_add _⟩
  · have hdecided := hL.decided h (by rw [hown]; exact List.mem_singleton_self h)
    rw [hown, hown', List.flatMap_singleton, List.flatMap_singleton, Handling.reportsDue_of_use hdecided]
    exact ⟨rfl, Nat.zero_add _⟩
  · have hdecided := hL.decided h (by rw [hown]; exact List.mem_singleton_self h)
    rw [hown, hown', List.flatMap_singleton, List.flatMap_singleton]
    exact ⟨next.reports_due hdecided, next.discounts_due⟩
  · -- a handling that gives its slot back has nothing left to do
    rw [hown, hown']
    simp [Handling.reportsDue, hp, History.reports, History.discounts, History.passings,
      HandlingPhase.isPast]

/-- So every run does for a handling what is due, as far as it goes. -/
theorem Run.due (run : Run config L log L') (hn : L.Numbered) (hL : L.Decided id) :
    History.reports id log ++ L'.reportsDue config id = L.reportsDue config id ∧
      History.discounts id log + L'.discountsDue id = L.discountsDue id := by
  induction run with
  | nil => exact ⟨rfl, Nat.zero_add _⟩
  | cons step _ ih =>
      obtain ⟨hreports, hdiscounts⟩ := step.due hn hL
      obtain ⟨hreports', hdiscounts'⟩ := ih (step.numbered hn) (step.decided hn hL)
      refine ⟨?_, ?_⟩
      · rw [History.reports_append, List.append_assoc, hreports', hreports]
      · rw [History.discounts_append, Nat.add_assoc, hdiscounts', hdiscounts]

/-- A handling that is gone stays gone. -/
theorem Run.own_nil (run : Run config L log L') (hn : L.Numbered) (hL : L.Decided id) (hgone : L.own id = []) :
    L'.own id = [] := by
  induction run with
  | nil => exact hgone
  | cons step _ ih =>
      refine ih (step.numbered hn) (step.decided hn hL) ?_
      rcases step.own_cases hn hL with ⟨hsame, -, -⟩ | ⟨h, hown, -⟩ | ⟨h, h', -, hown, -⟩ | ⟨h, hown, -⟩
      · rw [hsame, hgone]
      · rw [hgone] at hown; cases hown
      · rw [hgone] at hown; cases hown
      · rw [hgone] at hown; cases hown

/-! ## Before that -/

/-- Nothing was done for a handling of which nothing is decided, or that has yet to begin. -/
structure Untouched (log : List Event) (L : Ledger) : Prop where
  future : ∀ id, L.launched ≤ id → History.reports id log = [] ∧ History.discounts id log = 0
  young : ∀ h ∈ L.handlings, h.phase.isDecided = false →
    History.reports h.id log = [] ∧ History.discounts h.id log = 0

/-- **Before anything is decided nothing is done** for a handling. -/
theorem Step.untouched {log' : List Event} (step : Step config L log' L') (hn : L.Numbered)
    (hL : L.Untouched log) : L'.Untouched (log ++ log') := by
  obtain ⟨future, young⟩ := hL
  -- a step that is none of a handling adds nothing for any number
  have add : ∀ id, (History.reports id log' = [] ∧ History.discounts id log' = 0) →
      History.reports id log = [] ∧ History.discounts id log = 0 →
      History.reports id (log ++ log') = [] ∧ History.discounts id (log ++ log') = 0 := by
    intro id hnew hold
    rw [History.reports_append, History.discounts_append, hold.1, hold.2, hnew.1, hnew.2]
    exact ⟨rfl, rfl⟩
  cases step with
  | quiet | ask | hangUp | receive | count | store | take =>
      constructor
      · intro id hid
        exact add id ⟨rfl, rfl⟩ (future id hid)
      · intro h hmem hp
        exact add h.id ⟨rfl, rfl⟩ (young h hmem hp)
  | launch hheld =>
      refine ⟨fun id hid => add id ⟨rfl, rfl⟩ (future id (Nat.le_of_succ_le hid)), fun h hmem hp => ?_⟩
      rcases List.mem_append.mp hmem with hold | hnew
      · exact add h.id ⟨rfl, rfl⟩ (young h hold hp)
      · rw [List.mem_singleton.mp hnew]
        exact add _ ⟨rfl, rfl⟩ (future _ (Nat.le_refl _))
  | @use front h rest hh hp =>
      refine ⟨fun id hid => add id ⟨rfl, rfl⟩ (future id hid), fun other hmem hother => ?_⟩
      rcases mem_of_mem_replace hmem with rfl | hold
      · exact add h.id ⟨rfl, rfl⟩ (young h (by simp [hh]) hother)
      · exact add other.id ⟨rfl, rfl⟩ (young other (hn.others hh hold).1 hother)
  | @advance front h h' rest hh next =>
      have hmem : h ∈ L.handlings := by simp [hh]
      refine ⟨fun id hid => ?_, fun other hother hp => ?_⟩
      · have hne : h.id ≠ id := Nat.ne_of_lt (Nat.lt_of_lt_of_le (hn.below h hmem) hid)
        exact add id (History.advanced_other hne _ _ _) (future id hid)
      · rcases mem_of_mem_replace hother with rfl | hold
        · obtain ⟨hyoung, hnothing⟩ := next.undecided hp
          rw [next.id_eq]
          exact add h.id hnothing (young h hmem hyoung)
        · obtain ⟨hold, hne⟩ := hn.others hh hold
          exact add other.id (History.advanced_other hne _ _ _) (young other hold hp)
  | @retire front h rest hh _ | @collapse front h rest hh _ =>
      refine ⟨fun id hid => add id ⟨rfl, rfl⟩ (future id hid), fun other hmem hp => ?_⟩
      exact add other.id ⟨rfl, rfl⟩ (young other (hn.others hh hmem).1 hp)

end Ledger

namespace Worker

variable {config : WorkerConfig} {kind : HandlerKind} {now : Time} {actions : List Action}
variable {w w' : Worker} {id : Nat} {h : Handling}

/-- The handling that a number names. -/
theorem own_eq (hn : w.ledger.Numbered) (hh : w.handling? id = some h) : w.ledger.own id = [h] := by
  obtain ⟨rfl, front, back, hsplit, -, -⟩ := handling?_split hn.distinct hh
  exact (hn.own_eq hsplit).2.2

theorem own_eq_nil (hh : w.handling? id = none) : w.ledger.own id = [] := by
  show w.handlings.filter _ = []
  rw [List.filter_eq_nil_iff]
  exact List.find?_eq_none.mp hh

theorem id_lt_launched (hn : w.ledger.Numbered) (hh : w.handling? id = some h) : id < w.ledger.launched := by
  have hlt := hn.below h (List.mem_of_find?_eq_some hh)
  rwa [handling?_id hh] at hlt

/-- A handling of which nothing is decided was neither reported nor counted down, in any run. -/
theorem run_untouched (h : run actions (start config kind now) = some w) :
    w.ledger.Untouched (history actions (start config kind now)) := by
  have opening : (start config kind now).ledger.Untouched [] :=
    ⟨fun _ _ => ⟨rfl, rfl⟩, fun _ hmem => nomatch hmem⟩
  have run := run_ledger start_balanced.numbered h
  have kept := run.preserves (P := fun log L => L.Numbered ∧ L.Untouched log)
    (fun hL step => ⟨step.numbered hL.1, step.untouched hL.1 hL.2⟩) ⟨start_balanced.numbered, opening⟩
  exact kept.2

/-- **The fate of a handling** of which it is decided what comes of it, or that is gone: once it is gone, what was
due at the beginning of the run has been done, and nothing else. -/
theorem run_fate (hn : w.ledger.Numbered) (hdecided : w.ledger.Decided id) (h : run actions w = some w')
    (hgone : w'.handling? id = none) :
    History.reports id (history actions w) = w.ledger.reportsDue w.config id ∧
      History.discounts id (history actions w) = w.ledger.discountsDue id := by
  obtain ⟨hreports, hdiscounts⟩ := (run_ledger hn h).due hn hdecided
  -- at the end nothing is due any more
  rw [Ledger.reportsDue, own_eq_nil hgone, List.flatMap_nil, List.append_nil] at hreports
  rw [Ledger.discountsDue, own_eq_nil hgone, List.countP_nil, Nat.add_zero] at hdiscounts
  exact ⟨hreports, hdiscounts⟩

end Worker

end JobWorker
