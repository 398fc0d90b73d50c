import JobWorker.Proofs.Breakdown.Alike
import JobWorker.Proofs.Ledger.Fate

/-!
# `JobWorker.Proofs.Breakdown` — which breakdowns of a handler are contained

A handler is the user's code, and it may break down wherever it runs: on a thread of its own, while what an
asynchronous handler made is going on, or while it is only being made. The first two run guarded, and a
breakdown there is a failure like any other: the job is reported as failed, counted down, and the slot comes
back; which failure it was can be seen in the text of the report and nowhere else. The last is not guarded. A
breakdown there takes the handling with it, nothing is reported, and the job stays in the count of jobs in hand
for ever. So a breakdown is **contained** if and only if it does not happen while an asynchronous handler is
being made.

## Contents
- **Breakdowns.** `HandlingPhase.breakdown?`, `Worker.Contained`.
- **The way out.** `Worker.run_wayOut`: a handling that has failed can always be brought to its end.
- **Containment.** `Worker.breakdown_contained_iff`.
-/

namespace JobWorker

/-! ## Breakdowns -/

/-- What it comes down to that the handler of a handling in this phase breaks down; in the other phases it is not
at work. -/
def HandlingPhase.breakdown? (id : Nat) : HandlingPhase → Option Action
  | .calling => some (.collapse id)
  | .running => some (.finish id (.error .panicked))
  | _        => none

/-- The report of a job whose handler broke down: failed, with one retry less. -/
def failedReport (config : WorkerConfig) (job : Job) : CommandRequest :=
  .fail {
    key := job.key
    retries := job.retries - 1
    message := failureText config.workerName config.jobType .panicked
    backoff := 0
    vars := documentText none }

/-- A breakdown that led to this worker by the events in `log` is contained: whatever happens now, once the
handling is gone it has been reported once, as failed, and its job has been counted down once. -/
def Worker.Contained (id : Nat) (job : Job) (log : List Event) (w : Worker) : Prop :=
  ∀ later w', run later w = some w' → w'.handling? id = none →
    History.reports id (log ++ history later w) = [failedReport w.config job] ∧
      History.discounts id (log ++ history later w) = 1

/-! ## The way out -/

namespace Worker

variable {w : Worker} {id : Nat}

/-- What brings a handling that has failed to its end. -/
def wayOut (id : Nat) : List Action := [.handle id, .answer id, .handle id, .handle id, .retire id]

/-- A handling's own step, in its place. -/
theorem handle_goes {h : Handling} (h' : Handling) (q : JobQueue Party Job) (hh : w.handling? id = some h)
    (hstep : h.step w.config w.kind w.queue = some (q, h')) (hid : h'.id = h.id) :
    ∃ w', w.perform (.handle id) = some w' ∧ w'.handling? id = some h' := by
  refine ⟨{ w with queue := q }.setHandling h', ?_, handling?_setHandling hh hid⟩
  show w.handle id = _
  rw [handle_eq_map, hh]
  show (h.step w.config w.kind w.queue).map _ = _
  rw [hstep]
  rfl

/-- **A handling that has failed can be brought to its end,** whatever else there is. -/
theorem run_wayOut {h : Handling} {failure : Failure} (hh : w.handling? id = some h)
    (hp : h.phase = .returned (.error failure)) :
    ∃ w', run (wayOut id) w = some w' ∧ w'.handling? id = none := by
  -- report, answer, count down, give the slot back, and go
  obtain ⟨request, hrequest⟩ : ∃ request, h.report? w.config (.error failure) = some request :=
    ⟨_, rfl⟩
  obtain ⟨w₁, hw₁, hh₁⟩ := handle_goes { h with phase := .reporting request } w.queue hh
    (by simp only [Handling.step, hp, hrequest]) rfl
  obtain ⟨w₂, hw₂, hh₂⟩ : ∃ w₂, w₁.perform (.answer id) = some w₂ ∧
      w₂.handling? id = some { h with phase := .settling } := by
    refine ⟨w₁.setHandling { h with phase := .settling }, ?_, handling?_setHandling hh₁ rfl⟩
    show (w₁.handling? id).bind _ = _
    rw [hh₁]
    rfl
  obtain ⟨w₃, hw₃, hh₃⟩ := handle_goes { h with phase := .counted } w₂.queue.discount hh₂ rfl rfl
  obtain ⟨w₄, hw₄, hh₄⟩ := handle_goes { h with phase := .releasing } w₃.queue.release hh₃ rfl rfl
  have hw₅ : w₄.perform (.retire id) = some (w₄.dropHandling id) := by
    show w₄.retire id = _
    rw [retire, hh₄]
    rfl
  refine ⟨w₄.dropHandling id, ?_, ?_⟩
  · simp only [wayOut, run, hw₁, hw₂, hw₃, hw₄, hw₅, Option.bind_some]
  · exact handling?_dropHandling w₄ id

end Worker

/-! ## Containment -/

section Containment

open History

variable {config : WorkerConfig} {kind : HandlerKind} {now : Time} {actions : List Action}
variable {w w' : Worker} {id : Nat} {hd : Handling}

/-- A handler that is running can come back with any result. -/
theorem Worker.perform_finish (result : HandlerResult) (hh : w.handling? id = some hd)
    (hp : hd.phase = .running) :
    w.perform (.finish id result) = some (w.setHandling { hd with phase := .returned result }) := by
  show (w.handling? id).bind _ = _
  rw [hh, Option.bind_some, Handling.finish, hp]
  rfl

/-- A handler that is being made can break down. -/
theorem Worker.perform_collapse (hh : w.handling? id = some hd) (hp : hd.phase = .calling) :
    w.perform (.collapse id) = some (w.dropHandling id) := by
  show (w.handling? id).bind _ = _
  rw [hh, Option.bind_some, hp]

/-- **A breakdown of a handler that runs guarded is contained.** -/
theorem Worker.contained_of_running {log : List Event} (hn : w.ledger.Numbered)
    (hlog : w.ledger.Untouched log) (hh : w.handling? id = some hd) (hp : hd.phase = .running)
    (h : w.perform (.finish id (.error .panicked)) = some w') :
    w'.Contained id hd.job (log ++ events (.finish id (.error .panicked)) w w') := by
  obtain rfl := handling?_id hh
  have hset : w' = w.setHandling { hd with phase := .returned (.error .panicked) } :=
    Option.some.inj (h.symm.trans (perform_finish _ hh hp))
  have hh' : w'.handling? hd.id = some { hd with phase := .returned (.error .panicked) } := by
    rw [hset]
    exact handling?_setHandling hh rfl
  have hn' : w'.ledger.Numbered := (perform_step hn h).numbered hn
  have hown := own_eq hn' hh'
  have hdecided : w'.ledger.Decided hd.id := by
    refine ⟨id_lt_launched hn' hh', fun other hmem => ?_⟩
    rw [hown, List.mem_singleton] at hmem
    rw [hmem]
    rfl
  -- nothing was done before, and the breakdown itself does nothing
  obtain ⟨hreports, hdiscounts⟩ := hlog.young hd (List.mem_of_find?_eq_some hh) (by rw [hp]; rfl)
  have hevents : events (.finish hd.id (.error .panicked)) w w' =
      [.advanced hd.id hd.job .running (.returned (.error .panicked))] := by
    simp only [events, hh, hh', hp]
  have hnothing : reports hd.id [.advanced hd.id hd.job .running (.returned (.error .panicked))] = [] ∧
      discounts hd.id [.advanced hd.id hd.job .running (.returned (.error .panicked))] = 0 := ⟨rfl, rfl⟩
  intro later v hrun hgone
  obtain ⟨hreports', hdiscounts'⟩ := run_fate hn' hdecided hrun hgone
  rw [Ledger.reportsDue, hown] at hreports'
  rw [Ledger.discountsDue, hown] at hdiscounts'
  rw [reports_append, reports_append, discounts_append, discounts_append, hreports', hdiscounts', hevents,
    hreports, hdiscounts, hnothing.1, hnothing.2]
  exact ⟨rfl, rfl⟩

/-- A breakdown of a handler that runs guarded ends like any other failure: its handling can be brought to its
end, and whatever happens then is what would have happened after that failure, but for the texts. -/
theorem Worker.like_failure (hh : w.handling? id = some hd) (hp : hd.phase = .running)
    (h : w.perform (.finish id (.error .panicked)) = some w') :
    (∃ v, run (wayOut id) w' = some v ∧ v.handling? id = none) ∧
      ∀ failure v, w.perform (.finish id (.error failure)) = some v →
        ∀ later, (run later w').map blur = (run later v).map blur := by
  have hset : ∀ {failure : Failure} {v : Worker}, w.perform (.finish id (.error failure)) = some v →
      v = w.setHandling { hd with phase := .returned (.error failure) } := by
    intro failure v hv
    exact Option.some.inj (hv.symm.trans (perform_finish _ hh hp))
  refine ⟨?_, fun failure v hv later => run_blur ?_⟩
  · rw [hset h]
    exact run_wayOut (handling?_setHandling hh rfl) rfl
  · rw [hset h, hset hv, blur_setHandling, blur_setHandling]
    rfl

/-- **A breakdown while an asynchronous handler is being made** takes the handling with it: it is never
reported and never counted down, and the count of jobs in hand stays too high for ever. -/
theorem Worker.lost_of_calling (hw : run actions (start config kind now) = some w)
    (hh : w.handling? id = some hd) (hp : hd.phase = .calling) (h : w.perform (.collapse id) = some w')
    {later : List Action} {v : Worker} (hv : run later w' = some v) :
    let log := history (actions ++ .collapse id :: later) (start config kind now)
    v.handling? id = none ∧ reports id log = [] ∧ discounts id log = 0 ∧
      v.poller.entering.toList.length + v.queue.jobs.length + (v.ledger.awaiting .discounted).length <
        v.inHand := by
  intro log
  have hbalanced := run_balanced hw
  have hn := hbalanced.numbered
  have hn' : w'.ledger.Numbered := (perform_step hn h).numbered hn
  have hdrop : w' = w.dropHandling id := Option.some.inj (h.symm.trans (perform_collapse hh hp))
  have hnone : w'.ledger.own id = [] := own_eq_nil (hdrop ▸ handling?_dropHandling w id)
  have hdecided : w'.ledger.Decided id := by
    refine ⟨?_, fun other hmem => ?_⟩
    · rw [hdrop]
      show id < w.ledger.launched
      exact id_lt_launched hn hh
    · rw [hnone] at hmem
      cases hmem
  have hgone : v.handling? id = none := by
    have hown := (run_ledger hn' hv).own_nil hn' hdecided hnone
    exact List.find?_eq_none.mpr (List.filter_eq_nil_iff.mp hown)
  obtain ⟨hreports, hdiscounts⟩ := run_fate hn' hdecided hv hgone
  rw [Ledger.reportsDue, hnone] at hreports
  rw [Ledger.discountsDue, hnone] at hdiscounts
  -- nothing was done before, and the breakdown itself only loses the handling
  obtain ⟨hbefore, hbefore'⟩ := (run_untouched hw).young hd (List.mem_of_find?_eq_some hh) (by rw [hp]; rfl)
  rw [handling?_id hh] at hbefore hbefore'
  have hevents : history (.collapse id :: later) w = .collapsed id hd.job :: history later w' := by
    rw [history, h]
    simp only [events, hh, Option.toList_some, List.map_cons, List.map_nil, List.singleton_append]
  have hlog : log = history actions (start config kind now) ++ .collapsed id hd.job :: history later w' := by
    rw [← hevents]
    exact history_append hw
  have hlost : losses .discounted log = losses .discounted (history actions (start config kind now)) ++
      (hd.job, id) :: losses .discounted (history later w') := by
    rw [hlog, losses_append]
    rfl
  have hall : run (actions ++ .collapse id :: later) (start config kind now) = some v := by
    rw [run_append, hw]
    show run (.collapse id :: later) w = some v
    rw [run, h]
    exact hv
  -- the lost handling stands in the balance and at no place
  have hinHand := (run_balanced hall).inHand_eq
  refine ⟨hgone, ?_, ?_, ?_⟩
  · rw [hlog, reports_append, hbefore]
    exact hreports
  · rw [hlog, discounts_append, hbefore', Nat.zero_add]
    exact hdiscounts
  · rw [hlost, List.length_append, List.length_cons] at hinHand
    show v.ledger.entering.toList.length + v.ledger.queue.length + _ < v.ledger.inHand
    omega

/-- **A breakdown of a handler is contained if and only if it does not happen while an asynchronous handler is
being made.** Where it is contained, once the handling is gone the job has been reported once, as failed and
with one retry less, and counted down once; the handling can be brought to its end; and all else goes as after
any other failure. Where it is not, the handling is gone without a report, and from then on the count of jobs
in hand is higher than the number of jobs there are. -/
theorem Worker.breakdown_contained_iff {action : Action} (hw : run actions (start config kind now) = some w)
    (hh : w.handling? id = some hd) (hb : hd.phase.breakdown? id = some action) :
    ∃ w', w.perform action = some w' ∧
      (w'.Contained id hd.job (history (actions ++ [action]) (start config kind now)) ↔
        hd.phase ≠ .calling) ∧
      (hd.phase ≠ .calling →
        (∃ v, run (wayOut id) w' = some v ∧ v.handling? id = none) ∧
        ∀ failure v, w.perform (.finish id (.error failure)) = some v →
          ∀ later, (run later w').map blur = (run later v).map blur) ∧
      (hd.phase = .calling → ∀ later v, run later w' = some v →
        v.handling? id = none ∧
        reports id (history (actions ++ action :: later) (start config kind now)) = [] ∧
        discounts id (history (actions ++ action :: later) (start config kind now)) = 0 ∧
        v.poller.entering.toList.length + v.queue.jobs.length + (v.ledger.awaiting .discounted).length <
          v.inHand) := by
  have hbalanced := run_balanced hw
  have hlog : ∀ {w'}, w.perform action = some w' → history (actions ++ [action]) (start config kind now) =
      history actions (start config kind now) ++ events action w w' := by
    intro w' h
    rw [history_append hw, history, h]
    exact congrArg _ (List.append_nil _)
  cases hp : hd.phase with
  | calling =>
      rw [hp] at hb
      cases hb
      obtain ⟨w', h⟩ : ∃ w', w.perform (.collapse id) = some w' := ⟨_, perform_collapse hh hp⟩
      refine ⟨w', h, ⟨fun hcontained => ?_, fun hne => absurd rfl hne⟩, fun hne => absurd rfl hne,
        fun _ later v hv => lost_of_calling hw hh hp h hv⟩
      -- it is gone at once, and was not reported
      obtain ⟨hgone, hreports, -, -⟩ := lost_of_calling hw hh hp h (show run [] w' = some w' from rfl)
      have hreport := (hcontained [] w' rfl hgone).1
      rw [history, List.append_nil] at hreport
      rw [hreports] at hreport
      cases hreport
  | running =>
      rw [hp] at hb
      cases hb
      obtain ⟨w', h⟩ : ∃ w', w.perform (.finish id (.error .panicked)) = some w' :=
        ⟨_, perform_finish _ hh hp⟩
      refine ⟨w', h, ⟨(fun _ hne => by cases hne), fun _ => ?_⟩, fun _ => like_failure hh hp h,
        fun hcalling => by cases hcalling⟩
      rw [hlog h]
      exact contained_of_running hbalanced.numbered (run_untouched hw) hh hp h
  | starting | returned | reporting | settling | counted | releasing => rw [hp] at hb; cases hb

/-- A worker for one job at a time, with an asynchronous handler. -/
def Worker.narrow : Worker := start { jobType := "foo", workerName := "worker", maxJobsActive := 1 } .async 0

/-- One job comes in and is dispatched; its handler is being made. -/
def Worker.makingRun : List Action :=
  [.poll true true, .poll true true, .poll true true, .gateway .opened, .gateway (.response [{ key := 1 }]),
    .poll true true, .poll true true, .poll true true, .poll true true, .gateway .ended, .dispatch true,
    .dispatch true, .dispatch true, .dispatch true, .dispatch true, .handle 0]

/-- A breakdown of a handler that has been made is contained. -/
theorem Worker.breakdown_contained_while_running :
    ∃ w hd w', run (makingRun ++ [.handle 0]) narrow = some w ∧ w.handling? 0 = some hd ∧
      hd.phase.breakdown? 0 = some (.finish 0 (.error .panicked)) ∧
      w.perform (.finish 0 (.error .panicked)) = some w' ∧
      w'.Contained 0 hd.job
        (history ((makingRun ++ [.handle 0]) ++ [.finish 0 (.error .panicked)]) narrow) := by
  obtain ⟨w, hw⟩ : ∃ w, run (makingRun ++ [.handle 0]) narrow = some w := ⟨_, rfl⟩
  obtain ⟨hd, hh, hp⟩ : ∃ hd, w.handling? 0 = some hd ∧ hd.phase = .running := by
    cases hw
    exact ⟨_, rfl, rfl⟩
  have hb : hd.phase.breakdown? 0 = some (.finish 0 (.error .panicked)) := by rw [hp]; rfl
  obtain ⟨w', h, hcontained, -⟩ := breakdown_contained_iff hw hh hb
  exact ⟨w, hd, w', hw, hh, hb, h, hcontained.mpr (by rw [hp]; exact nofun)⟩

/-- A breakdown of a handler that is being made is not: there is no job and no handling any more, nothing was
reported, and the worker, which takes itself to have a job in hand, asks for no other. -/
theorem Worker.breakdown_not_contained_while_making :
    ∃ w w', run makingRun narrow = some w ∧ w.perform (.collapse 0) = some w' ∧
      w'.queue.jobs = [] ∧ w'.handlings = [] ∧ w'.freeSlots = 1 ∧
      reports 0 (history (makingRun ++ [.collapse 0]) narrow) = [] ∧
      discounts 0 (history (makingRun ++ [.collapse 0]) narrow) = 0 ∧
      w'.inHand = 1 ∧ w'.queue.load.wantsMore = false :=
  ⟨_, _, rfl, rfl, rfl, rfl, rfl, rfl, rfl, rfl, rfl⟩

end Containment

end JobWorker
