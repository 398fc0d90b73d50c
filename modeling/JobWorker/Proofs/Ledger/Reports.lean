import JobWorker.Proofs.Ledger.Fate

/-!
# `JobWorker.Proofs.Ledger.Reports` — which reports are made

What comes of a handler is an *outcome*: its job, whether a command was made through its client, and its result. An
outcome calls for one report or for none, and nothing else does. A handling goes by the outcome that it finds when
it looks, which is after the handler came back; until then the outcome is **pending**, and a command that is made
still changes it. Every report that was made is what an outcome called for that was found, and waits for its answer or
was answered. So the reports of a run can be computed from the outcomes, in whatever order and with whatever else
the handlings went on.

## Contents
- **Outcomes.** `Outcome`, `Outcome.command?`, `Outcome.commands`.
- **Outcomes in a history.** `Event.outcome?`, `Event.return?`, `History.pick`, `History.outcomes`,
  `History.returns`.
- **Reports in a history.** `History.attempts`, `History.answers`.
- **Reports of a ledger.** `Ledger.pending`, `Ledger.attemptsDue`, `Ledger.underway`.
- **Marks.** `Ledger.Marked`: each handling knows of its own client only.
- **The account.** `Ledger.Settled`, kept by `Ledger.Step.settled`; `Worker.run_account`.
-/

namespace JobWorker

/-! ## Outcomes -/

/-- What comes of a handler: the number of its handling, its job, whether a command was made through its client, and
its result. -/
structure Outcome where
  id : Nat
  job : Job
  used : Bool
  result : HandlerResult

namespace Outcome

/-- The command that an outcome calls for: a job whose handler came back well is completed, if the worker is
set to do so and no command was made through the client; one whose handler failed is marked as failed, with one
retry less, whether or not a command was made. -/
def command? (config : WorkerConfig) (o : Outcome) : Option CommandRequest :=
  match o.result with
  | .ok ()          =>
    if config.autoCompletion && !o.used then some (.complete { key := o.job.key, vars := "" }) else none
  | .error failure  =>
    some (.fail {
      key := o.job.key
      retries := o.job.retries - 1
      message := failureText config.workerName config.jobType failure
      backoff := 0
      vars := "" })

/-- The same, with the number of the handling. -/
def commands (config : WorkerConfig) (o : Outcome) : List (Nat × CommandRequest) :=
  (o.command? config).toList.map fun request => (o.id, request)

/-- The report on a handling is the command that its outcome calls for. -/
theorem command?_eq_report? (config : WorkerConfig) (h : Handling) (result : HandlerResult) :
    command? config ⟨h.id, h.job, h.used, result⟩ = h.report? config result := by
  cases result <;> rfl

end Outcome

/-! ## Outcomes in a history -/

/-- The outcome that a handling finds by an event, if it looks by it; `used` tells through which clients a command has
been made. -/
def Event.outcome? (used : Nat → Bool) (event : Event) : Option Outcome :=
  match event with
  | .advanced id job (.returned result) _ => some ⟨id, job, used id, result⟩
  | _                                     => none

/-- The outcome as it stands when a handler comes back, if one does by an event. -/
def Event.return? (used : Nat → Bool) (event : Event) : Option Outcome :=
  match event with
  | .advanced id job .running (.returned result) => some ⟨id, job, used id, result⟩
  | _                                            => none

namespace History

section Pick

variable (f : (Nat → Bool) → Event → Option Outcome)

/-- What a view of single events gives along a history, each event seen with the uses before it; `past` is what came
before the history. -/
def pick (past : List Event) : List Event → List Outcome
  | []           => []
  | event :: log => (f (uses past).contains event).toList ++ pick (past ++ [event]) log

theorem pick_append (past log log' : List Event) :
    pick f past (log ++ log') = pick f past log ++ pick f (past ++ log) log' := by
  induction log generalizing past with
  | nil => rw [List.append_nil]; rfl
  | cons event log ih =>
      rw [List.cons_append, pick, pick, ih, List.append_assoc, List.append_assoc]
      rfl

@[simp] theorem pick_singleton (past : List Event) (event : Event) :
    pick f past [event] = (f (uses past).contains event).toList := List.append_nil _

end Pick

variable (log log' : List Event)

/-- The outcomes that handlings found when they looked, in order. -/
def outcomes : List Outcome := pick Event.outcome? [] log

/-- The outcomes as they stood when the handlers came back, in order. -/
def returns : List Outcome := pick Event.return? [] log

theorem outcomes_append : outcomes (log ++ log') = outcomes log ++ pick Event.outcome? log log' :=
  pick_append _ [] log log'

theorem returns_append : returns (log ++ log') = returns log ++ pick Event.return? log log' :=
  pick_append _ [] log log'

/-! ## Reports in a history -/

/-- The reports that were made, in order, each with the number of its handling. -/
def attempts : List (Nat × CommandRequest) :=
  log.filterMap fun
    | .advanced id _ _ (.reporting request) => some (id, request)
    | _                                     => none

/-- The reports that were answered, in order, each with the number of its handling. -/
def answers : List (Nat × CommandRequest) :=
  log.filterMap fun
    | .advanced id _ (.reporting request) _ => some (id, request)
    | _                                     => none

@[simp] theorem attempts_append : attempts (log ++ log') = attempts log ++ attempts log' :=
  List.filterMap_append

@[simp] theorem answers_append : answers (log ++ log') = answers log ++ answers log' :=
  List.filterMap_append

end History

/-! ## Reports of a ledger -/

namespace Handling

/-- The outcome that a handling has yet to look at, as it stands. -/
def pending (h : Handling) : List Outcome :=
  match h.phase with
  | .returned result => [⟨h.id, h.job, h.used, result⟩]
  | _                => []

/-- The reports that are still to be made of a handling as things stand, with its number. -/
def attemptsDue (config : WorkerConfig) (h : Handling) : List (Nat × CommandRequest) :=
  (h.reportsDue config).map fun request => (h.id, request)

/-- The report of a handling that was made and waits for its answer, with its number. -/
def underway (h : Handling) : List (Nat × CommandRequest) :=
  match h.phase with
  | .reporting request => [(h.id, request)]
  | _                  => []

/-- What is due is what the pending outcome calls for. -/
theorem attemptsDue_eq (config : WorkerConfig) (h : Handling) :
    h.attemptsDue config = h.pending.flatMap (·.commands config) := by
  unfold attemptsDue reportsDue pending
  cases h.phase with
  | returned result =>
      rw [List.flatMap_singleton, Outcome.commands, Outcome.command?_eq_report?]
  | _ => rfl

end Handling

namespace Ledger

/-- The outcomes that handlings have yet to look at, as they stand. -/
def pending (L : Ledger) : List Outcome := L.handlings.flatMap Handling.pending

/-- The reports that are still to be made of handlings whose handler has come back, as things stand. -/
def attemptsDue (config : WorkerConfig) (L : Ledger) : List (Nat × CommandRequest) :=
  L.handlings.flatMap (·.attemptsDue config)

/-- The reports that were made and wait for their answer. -/
def underway (L : Ledger) : List (Nat × CommandRequest) := L.handlings.flatMap Handling.underway

theorem attemptsDue_eq (config : WorkerConfig) (L : Ledger) :
    L.attemptsDue config = L.pending.flatMap (·.commands config) := by
  unfold attemptsDue pending
  induction L.handlings with
  | nil => rfl
  | cons h hs ih => rw [List.flatMap_cons, List.flatMap_cons, List.flatMap_append, ih, h.attemptsDue_eq]

/-! ## Marks -/

/-- Each handling is marked if and only if its own client was used, and no client is used before its handler is
called. -/
structure Marked (log : List Event) (L : Ledger) : Prop where
  used : ∀ h ∈ L.handlings, h.used = (History.uses log).contains h.id
  begun : ∀ id ∈ History.uses log, id < L.launched

/-! ## The account -/

/-- What the reports of a history and the handlings of a ledger have to do with the outcomes so far. -/
structure Settled (config : WorkerConfig) (log : List Event) (L : Ledger) : Prop where
  marked : L.Marked log
  attempts : History.attempts log = (History.outcomes log).flatMap (·.commands config)
  answered : (History.attempts log).Perm (History.answers log ++ L.underway)
  places : (History.outcomes log).map (fun o => (o.job, o.id)) = History.passings .judged log

/-! ### One handling among the others -/

section Replace

variable {α : Type} {all before front back : List α}

/-- What one handling adds to what was done, it no longer has before it, unless it is new. -/
theorem perm_made {made due due' new : List α} (h : made ++ due' = due ++ new)
    (hperm : (before ++ (front ++ (due ++ back))).Perm all) :
    (before ++ made ++ (front ++ (due' ++ back))).Perm (all ++ new) := by
  classical
  rw [List.perm_iff_count]
  intro x
  have hone := congrArg (List.count x) h
  have hall := hperm.count_eq x
  simp only [List.count_append] at hone hall ⊢
  omega

/-- What one handling adds to the reports that were made is on its way or answered. -/
theorem perm_onTheWay {made answered way way' : List α} (h : way ++ made = answered ++ way')
    (hperm : all.Perm (before ++ (front ++ (way ++ back)))) :
    (all ++ made).Perm (before ++ answered ++ (front ++ (way' ++ back))) := by
  classical
  rw [List.perm_iff_count]
  intro x
  have hone := congrArg (List.count x) h
  have hall := hperm.count_eq x
  simp only [List.count_append] at hone hall ⊢
  omega

end Replace

end Ledger

namespace Handling.Next

variable {config : WorkerConfig} {used : Nat → Bool} {h h' : Handling}

theorem used_eq (next : h.Next config h') : h'.used = h.used := by
  cases next <;> rfl

/-- A handling makes a report exactly where it looks and what it finds calls for one. -/
theorem attempts_eq (next : h.Next config h') (hused : h.used = used h.id) :
    History.attempts [.advanced h.id h.job h.phase h'.phase] =
      (Event.outcome? used (.advanced h.id h.job h.phase h'.phase)).toList.flatMap (·.commands config) := by
  have hcommand : ∀ result, Outcome.command? config ⟨h.id, h.job, used h.id, result⟩ = h.report? config result :=
    fun result => hused ▸ Outcome.command?_eq_report? config h result
  cases next with
  | report hp hreport | skip hp hreport =>
      simp [History.attempts, Event.outcome?, Outcome.commands, hp, hcommand, hreport]
  | begin hp => rcases hp with hp | hp <;> simp [History.attempts, Event.outcome?, hp]
  | call hp | finish _ hp | answer hp | discount hp | release hp => simp [History.attempts, Event.outcome?, hp]

/-- A report that is made is on its way until it is answered. -/
theorem underway_answered (next : h.Next config h') :
    h.underway ++ History.attempts [.advanced h.id h.job h.phase h'.phase] =
      History.answers [.advanced h.id h.job h.phase h'.phase] ++ h'.underway := by
  unfold underway
  cases next with
  | begin hp => rcases hp with hp | hp <;> simp [History.attempts, History.answers, hp]
  | call hp | finish _ hp | report hp _ | skip hp _ | answer hp | discount hp | release hp =>
      simp [History.attempts, History.answers, hp]

/-- An outcome is found where what the handler left is judged. -/
theorem places_eq (used : Nat → Bool) (next : h.Next config h') :
    (Event.outcome? used (.advanced h.id h.job h.phase h'.phase)).toList.map (fun o => (o.job, o.id)) =
      History.passings .judged [.advanced h.id h.job h.phase h'.phase] := by
  cases next with
  | begin hp => rcases hp with hp | hp <;> simp [History.passings, HandlingPhase.isPast, Event.outcome?, hp]
  | call hp | finish _ hp | report hp _ | skip hp _ | answer hp | discount hp | release hp =>
      simp [History.passings, HandlingPhase.isPast, Event.outcome?, hp]

end Handling.Next

namespace Ledger

open History

variable {config : WorkerConfig} {L L' : Ledger} {log log' : List Event}

/-- What uses no client leaves the marks as they are. -/
theorem Marked.keep (hL : L.Marked log) (hnone : uses log' = []) (hlaunched : L.launched ≤ L'.launched)
    (hsame : ∀ h' ∈ L'.handlings, ∃ h ∈ L.handlings, h'.id = h.id ∧ h'.used = h.used) : L'.Marked (log ++ log') := by
  refine ⟨fun h' hmem => ?_, fun id hid => ?_⟩
  · obtain ⟨h, hold, hid, hused⟩ := hsame h' hmem
    rw [uses_append, hnone, List.append_nil, hused, hid]
    exact hL.used h hold
  · rw [uses_append, hnone, List.append_nil] at hid
    exact Nat.lt_of_lt_of_le (hL.begun id hid) hlaunched

/-- **A use marks its own handling,** and nothing else does. -/
theorem Step.marked (step : Step config L log' L') (hn : L.Numbered) (hL : L.Marked log) : L'.Marked (log ++ log') := by
  cases step with
  | quiet | ask | hangUp | receive | count | store | take =>
      exact hL.keep rfl (Nat.le_refl _) fun h hmem => ⟨h, hmem, rfl, rfl⟩
  | @launch job hheld =>
      rw [List.append_nil]
      refine ⟨fun h hmem => ?_, fun id hid => Nat.lt_succ_of_lt (hL.begun id hid)⟩
      rcases List.mem_append.mp hmem with hold | hnew
      · exact hL.used h hold
      · -- the client of a new handling has not been used
        have hnot : L.launched ∉ uses log := fun hid => Nat.lt_irrefl _ (hL.begun _ hid)
        rw [List.mem_singleton.mp hnew, List.contains_eq_mem]
        exact (decide_eq_false hnot).symm
  | @use front h back hh hp =>
      have huses : uses (log ++ [.used h.id h.phase]) = uses log ++ [h.id] := uses_append _ _
      refine ⟨fun other hmem => ?_, fun id hid => ?_⟩
      · rw [huses, List.contains_eq_mem]
        rcases mem_of_mem_replace hmem with rfl | hothers
        · simp
        · obtain ⟨hold, hne⟩ := hn.others hh hothers
          have hused := hL.used other hold
          rw [List.contains_eq_mem] at hused
          simpa [hne.symm] using hused
      · rw [huses] at hid
        rcases List.mem_append.mp hid with hold | hnew
        · exact hL.begun id hold
        · rw [List.mem_singleton.mp hnew]
          exact hn.below h (by simp [hh])
  | @advance front h h' back hh next =>
      refine hL.keep rfl (Nat.le_refl _) fun other hmem => ?_
      rcases mem_of_mem_replace hmem with rfl | hothers
      · exact ⟨h, by simp [hh], next.id_eq, next.used_eq⟩
      · exact ⟨other, mem_of_mem_others hh hothers, rfl, rfl⟩
  | retire hh _ | collapse hh _ =>
      exact hL.keep rfl (Nat.le_refl _) fun h hmem => ⟨h, mem_of_mem_others hh hmem, rfl, rfl⟩

/-- Reports are made exactly where an outcome is found that calls for them. -/
theorem Step.attempts_eq (step : Step config L log' L') (hmarked : L.Marked log)
    (hL : attempts log = (outcomes log).flatMap (·.commands config)) :
    attempts (log ++ log') = (outcomes (log ++ log')).flatMap (·.commands config) := by
  rw [attempts_append, outcomes_append, List.flatMap_append, hL]
  congr 1
  cases step with
  | @advance front h h' back hh next =>
      rw [pick_singleton]
      exact next.attempts_eq (hmarked.used h (by simp [hh]))
  | _ => rfl

/-- Every report that was made waits for its answer or was answered. -/
theorem Step.answered (step : Step config L log' L')
    (hL : (attempts log).Perm (answers log ++ L.underway)) :
    (attempts (log ++ log')).Perm (answers (log ++ log') ++ L'.underway) := by
  rw [attempts_append, answers_append]
  cases step with
  | @advance front h h' back hh next =>
      simp only [underway, hh, List.flatMap_append, List.flatMap_cons] at hL ⊢
      exact perm_onTheWay next.underway_answered hL
  | @launch job _ =>
      have hnone : Handling.underway { id := L.launched, job } = [] := rfl
      simpa [attempts, answers, underway, hnone] using hL
  | @use front h back hh hp =>
      have hsame : Handling.underway { h with used := true } = h.underway := rfl
      simpa [attempts, answers, underway, hh, hsame] using hL
  | @retire front h back hh hp | @collapse front h back hh hp =>
      have hnone : h.underway = [] := by simp only [Handling.underway, hp]
      simpa [attempts, answers, underway, hh, hnone] using hL
  | _ => simpa [attempts, answers, underway] using hL

/-- Outcomes are found where what a handler left is judged, in the same order. -/
theorem Step.places_eq (step : Step config L log' L')
    (hL : (outcomes log).map (fun o => (o.job, o.id)) = passings .judged log) :
    (outcomes (log ++ log')).map (fun o => (o.job, o.id)) = passings .judged (log ++ log') := by
  rw [outcomes_append, passings_append, List.map_append, hL]
  congr 1
  cases step with
  | advance hh next =>
      rw [pick_singleton]
      exact next.places_eq _
  | _ => rfl

/-- **Every step keeps the account of reports.** -/
theorem Step.settled (step : Step config L log' L') (hn : L.Numbered) (hL : L.Settled config log) :
    L'.Settled config (log ++ log') where
  marked := step.marked hn hL.marked
  attempts := step.attempts_eq hL.marked hL.attempts
  answered := step.answered hL.answered
  places := step.places_eq hL.places

/-! ## What the account says -/

namespace Settled

/-- What has been reported, and what is due as things stand, is what the outcomes call for. -/
theorem commands (hL : L.Settled config log) :
    History.attempts log ++ L.attemptsDue config = (outcomes log ++ L.pending).flatMap (·.commands config) := by
  rw [List.flatMap_append, ← hL.attempts, attemptsDue_eq]

/-- An outcome that is pending is that of a handling before the look. -/
theorem pending_sublist (L : Ledger) :
    (L.pending.map fun o => (o.job, o.id)).Sublist (Handling.awaiting .judged L.handlings) := by
  unfold pending
  induction L.handlings with
  | nil => exact .slnil
  | cons h hs ih =>
      rw [List.flatMap_cons, List.map_append, ← List.singleton_append, Handling.awaiting_append]
      refine List.Sublist.append ?_ ih
      unfold Handling.pending
      cases hp : h.phase with
      | returned result => simp [Handling.awaiting, hp, HandlingPhase.isPast]
      | _ => exact List.nil_sublist _

/-- The outcomes are those of handlings that are past the look or before it. -/
theorem places_sublist (hL : L.Settled config log) :
    ((outcomes log ++ L.pending).map fun o => (o.job, o.id)).Sublist
      (passings .judged log ++ L.awaiting .judged ++ losses .judged log) := by
  have hawaiting : (L.pending.map fun o => (o.job, o.id)).Sublist (L.awaiting .judged) :=
    (pending_sublist L).trans (List.sublist_append_left _ _)
  rw [List.map_append, hL.places]
  exact (hawaiting.append_left _).trans (List.sublist_append_left _ _)

/-- No handling has two outcomes. -/
theorem distinct (hL : L.Settled config log) (hbalanced : L.Balanced log) :
    ((outcomes log ++ L.pending).map (·.id)).Nodup := by
  have hsub := hL.places_sublist.map (·.2)
  rw [List.map_map] at hsub
  exact (hbalanced.nodup_once .judged).sublist hsub

/-- The number of an outcome is the place of its job among those that were taken. -/
theorem taken (hL : L.Settled config log) (hbalanced : L.Balanced log) :
    ∀ o ∈ outcomes log ++ L.pending, (o.job, o.id) ∈ (History.taken log).zipIdx := by
  intro o hmem
  have hplace : (o.job, o.id) ∈ (outcomes log ++ L.pending).map fun o => (o.job, o.id) := List.mem_map_of_mem hmem
  exact (hbalanced.once .judged).subset (hL.places_sublist.subset hplace)

/-- A job that was counted down has an outcome that was found. -/
theorem handled (hL : L.Settled config log) (hbalanced : L.Balanced log) :
    ∀ x ∈ passings .discounted log, ∃ o ∈ outcomes log, (o.job, o.id) = x := by
  intro x hx
  have hjudged := hbalanced.passed_judged hx
  rw [← hL.places] at hjudged
  exact List.mem_map.mp hjudged

end Settled

end Ledger

namespace Worker

variable {config : WorkerConfig} {kind : HandlerKind} {now : Time} {actions : List Action} {w : Worker}

/-- A worker that has just been opened has nothing to report. -/
theorem start_settled : (start config kind now).ledger.Settled config [] where
  marked := ⟨(fun _ hmem => nomatch hmem), fun _ hmem => nomatch hmem⟩
  attempts := rfl
  answered := .nil
  places := rfl

/-- What a run has reported is what its outcomes call for. -/
theorem run_account (h : run actions (start config kind now) = some w) :
    w.ledger.Settled config (history actions (start config kind now)) := by
  have run := run_ledger start_balanced.numbered h
  have kept := run.preserves (P := fun log L => L.Numbered ∧ L.Settled config log)
    (fun hL step => ⟨step.numbered hL.1, step.settled hL.1 hL.2⟩) ⟨start_balanced.numbered, start_settled⟩
  exact kept.2

end Worker

end JobWorker
