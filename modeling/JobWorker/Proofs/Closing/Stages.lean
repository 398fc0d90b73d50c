import JobWorker.Proofs.Order
import JobWorker.Proofs.Polling

/-!
# `JobWorker.Proofs.Closing.Stages` — how closing goes on

Closing goes through its stages in order and never back: it is asked for, it waits for the loops, it waits for the
handlings, and it is over. It leaves the first wait only when both loops have ended. A loop that has ended takes no
step any more, so that from there on nothing is asked for, nothing is put into the queue, and nothing is taken out
of it.

## Contents
- **Loops that have ended.** `Worker.Ended`, `Worker.Step.ended`, `Worker.run_ended`, `Worker.history_ended`.
- **Stages.** `Worker.ClosingStep`, `Worker.closing_cases`.
- **Along a run.** `Worker.WaitedSince`, `Worker.StageLaw`, `Worker.run_stageLaw`, `Worker.run_isClosed`.
-/

namespace JobWorker

open History

namespace Worker

variable {config : WorkerConfig} {kind : HandlerKind} {now : Time} {actions : List Action}
variable {w w' opened : Worker} {action : Action}

/-! ## Loops that have ended -/

theorem loopsEnded_iff : w.loopsEnded = true ↔ w.poller.phase = .ended .stopped ∧ w.dispatcher = .stopped := by
  obtain ⟨config, kind, now, cancelled, q, p, d, freeSlots, launched, handlings, closing⟩ := w
  obtain ⟨request, interval, phase⟩ := p
  constructor
  · intro h
    obtain ⟨hpoller, hdispatcher⟩ := Bool.and_eq_true_iff.mp h
    refine ⟨?_, ?_⟩
    · cases phase with
      | ended turn => cases turn <;> first | rfl | cases hpoller
      | _ => cases hpoller
    · cases d <;> first | rfl | cases hdispatcher
  · rintro ⟨hpoller, hdispatcher⟩
    have hpoller : phase = .ended .stopped := hpoller
    have hdispatcher : d = .stopped := hdispatcher
    rw [hpoller, hdispatcher]
    rfl

/-- Where the loops have ended, handlings come to their end and none begins. -/
structure Ended (w w' : Worker) : Prop where
  loops : w'.loopsEnded = true
  jobs : w'.queue.jobs = w.queue.jobs
  handlings : w.handlings = [] → w'.handlings = []

/-- A handling's own step puts nothing into the queue and takes nothing out. -/
theorem handle_jobs {q q' : JobQueue Party Job} {h h' : Handling} (hstep : h.step w.config w.kind q = some (q', h')) :
    q'.jobs = q.jobs := by
  cases hp : h.phase <;> simp only [Handling.step, hp] at hstep <;> cases hstep <;> rfl

/-- A handling that is replaced was there. -/
theorem handlings_ne_nil {id : Nat} {h : Handling} (hh : w.handling? id = some h) : w.handlings ≠ [] :=
  List.ne_nil_of_mem (List.mem_of_find?_eq_some hh)

/-- **Loops that have ended take no step any more.** -/
theorem Step.ended (step : w.Step action w') (hended : w.loopsEnded = true) : w.Ended w' := by
  obtain ⟨hpoller, hdispatcher⟩ := loopsEnded_iff.mp hended
  have absent : ∀ {id : Nat} {h : Handling} {P : Prop}, w.handling? id = some h → w.handlings = [] → P :=
    fun hh hnone => absurd hnone (handlings_ne_nil hh)
  cases step with
  | poll hstep =>
      rw [Poller.step, hpoller] at hstep
      cases hstep
  | again hagain =>
      rw [Poller.again, hpoller] at hagain
      cases hagain
  | hear hreceive _ =>
      rw [Poller.receive, hpoller] at hreceive
      cases hreceive
  | dispatch hstep =>
      rw [hdispatcher] at hstep
      cases hstep
  | handle hh hstep => exact ⟨hended, handle_jobs hstep, absent hh⟩
  | retire hh _ | collapse hh _ => exact ⟨hended, rfl, absent hh⟩
  | use hh _ | finish _ hh _ | answer hh _ => exact ⟨hended, rfl, absent hh⟩
  | aside _ _ _ => exact ⟨hended, rfl, id⟩

/-- So they never do. -/
theorem run_ended (hended : w.loopsEnded = true) (h : run actions w = some w') : w.Ended w' := by
  refine run_keeps (P := fun v => w.Ended v) ?_ ⟨hended, rfl, id⟩ h
  intro v action v' hv hperform
  have step := (perform_cases hperform).ended hv.loops
  exact ⟨step.loops, step.jobs.trans hv.jobs, fun hnone => step.handlings (hv.handlings hnone)⟩

/-- Nothing is asked for and nothing is taken where the loops have ended. -/
theorem nothing_new (hended : w.loopsEnded = true) (h : w.perform action = some w') :
    asked (events action w w') = [] ∧ taken (events action w w') = [] := by
  obtain ⟨hpoller, hdispatcher⟩ := loopsEnded_iff.mp hended
  refine ⟨List.eq_nil_iff_forall_not_mem.mpr ?_, List.eq_nil_iff_forall_not_mem.mpr ?_⟩
  · intro request hmem
    have hsizing := (asked_of_mem_events h (mem_asked.mp hmem)).1
    rw [hpoller] at hsizing
    cases hsizing
  · intro job hmem
    obtain ⟨event, hevent, heq⟩ := List.mem_filterMap.mp hmem
    have hlooking : w.dispatcher = .fetching .looking := by
      cases event <;> cases heq
      exact dispatcher_of_taken hevent
    rw [hdispatcher] at hlooking
    cases hlooking

/-- Nothing is asked for and nothing is taken any more. -/
theorem history_ended (hended : w.loopsEnded = true) (h : run actions w = some w') :
    asked (history actions w) = [] ∧ taken (history actions w) = [] := by
  induction actions generalizing w with
  | nil => exact ⟨rfl, rfl⟩
  | cons action actions ih =>
      obtain ⟨v, hv, h⟩ := Option.bind_eq_some_iff.mp h
      obtain ⟨hasked, htaken⟩ := nothing_new hended hv
      obtain ⟨hasked', htaken'⟩ := ih ((perform_cases hv).ended hended).loops h
      rw [history, hv]
      exact ⟨by rw [asked_append, hasked, hasked']; rfl, by rw [taken_append, htaken, htaken']; rfl⟩

/-! ## Stages -/

/-- What an action can make of the stage that closing is at. -/
inductive ClosingStep (w : Worker) : Closing → Prop where
  | stay : ClosingStep w w.closing
  | ask : w.closing = .notAsked → ClosingStep w .endingLoops
  | goOn : w.closing = .endingLoops → w.loopsEnded = true →
      ClosingStep w (.endingHandlings (Time.after w.now w.config.shutdownTimeout))
  | done {due} : w.closing = .endingHandlings due → w.handlings = [] → ClosingStep w (.finished false)
  | timeUp {due} : w.closing = .endingHandlings due → due ≤ w.now → ClosingStep w (.finished true)

theorem endHandlings_closing {timer : Bool} (h : w.endHandlings timer = some w') : w.ClosingStep w'.closing := by
  unfold endHandlings at h
  split at h
  · rename_i due hclosing
    dsimp only at h
    split at h
    · rename_i hdone
      cases h
      exact .done hclosing (List.isEmpty_iff.mp (Bool.and_eq_true_iff.mp hdone).1)
    · split at h
      · rename_i hup
        cases h
        exact .timeUp hclosing (of_decide_eq_true hup)
      · cases h
  · cases h

/-- **Every action leaves closing where it is, or takes it one stage on.** -/
theorem closing_cases (h : w.perform action = some w') : w.ClosingStep w'.closing := by
  cases action with
  | close =>
      simp only [perform] at h
      split at h
      · cases h
        exact .stay
      · rename_i hopen
        cases h
        have hclosing : w.closing = .notAsked := by simpa [isClosed] using hopen
        exact .ask hclosing
  | endLoops =>
      simp only [perform, endLoops] at h
      split at h
      · rename_i hready
        cases h
        exact .goOn hready.1 hready.2
      · cases h
  | endHandlings timer => exact endHandlings_closing h
  | cancel | pass ticks =>
      cases h
      exact .stay
  | poll token timer | pollAgain =>
      obtain ⟨_, -, rfl⟩ := Option.map_eq_some_iff.mp h
      exact .stay
  | gateway event =>
      obtain ⟨_, -, rfl, -⟩ := perform_gateway h
      exact .stay
  | dispatch token =>
      obtain ⟨⟨_, _, effect⟩, -, rfl⟩ := Option.map_eq_some_iff.mp h
      cases effect <;> exact .stay
  | handle id =>
      obtain ⟨_, -, h⟩ := Option.bind_eq_some_iff.mp h
      obtain ⟨_, -, h⟩ := Option.bind_eq_some_iff.mp h
      cases h
      exact .stay
  | use id | finish id result | answer id =>
      obtain ⟨_, _, -, -, rfl⟩ := outside_cases h
      exact .stay
  | retire id | collapse id =>
      obtain ⟨hd, -, h⟩ := Option.bind_eq_some_iff.mp h
      cases hp : hd.phase <;> simp only [hp] at h <;> cases h
      exact .stay

/-! ## Along a run -/

/-- Closing waits for the handlings since a moment at which it was still waiting for the loops and both had just
ended; its time is up at `due`. -/
def WaitedSince (opened : Worker) (past : List Action) (due : Time) : Prop :=
  ∃ front back v, past = front ++ back ∧ run front opened = some v ∧ v.closing = .endingLoops ∧
    v.loopsEnded = true ∧ due = Time.after v.now v.config.shutdownTimeout

theorem WaitedSince.append {past : List Action} {due : Time} (h : opened.WaitedSince past due) (later : List Action) :
    opened.WaitedSince (past ++ later) due := by
  obtain ⟨front, back, v, rfl, hrest⟩ := h
  exact ⟨front, back ++ later, v, List.append_assoc .., hrest⟩

/-- What a stage of closing says about a worker that is at it. -/
def StageLaw (opened : Worker) (past : List Action) (w : Worker) : Closing → Prop
  | .notAsked | .endingLoops => True
  | .endingHandlings due     => w.loopsEnded = true ∧ opened.WaitedSince past due
  | .finished true           => w.loopsEnded = true ∧ ∃ due ≤ w.now, opened.WaitedSince past due
  | .finished false          => w.loopsEnded = true ∧ w.handlings = []

/-- What holds at a stage goes on to hold at it. -/
theorem StageLaw.stay {past : List Action} {stage : Closing} (hw : opened.StageLaw past w stage)
    (step : w.Step action w') : opened.StageLaw (past ++ [action]) w' stage := by
  cases stage with
  | notAsked | endingLoops => trivial
  | endingHandlings due =>
      obtain ⟨hended, hwaited⟩ := hw
      exact ⟨(step.ended hended).loops, hwaited.append _⟩
  | finished timedOut =>
      cases timedOut with
      | true =>
          obtain ⟨hended, due, hdue, hwaited⟩ := hw
          exact ⟨(step.ended hended).loops, due, Nat.le_trans hdue step.now_le, hwaited.append _⟩
      | false =>
          obtain ⟨hended, hnone⟩ := hw
          exact ⟨(step.ended hended).loops, (step.ended hended).handlings hnone⟩

/-- An action keeps what the stage says, or enters the next stage. -/
theorem StageLaw.perform {past : List Action} (hrun : run past opened = some w)
    (hw : opened.StageLaw past w w.closing) (h : w.perform action = some w') :
    opened.StageLaw (past ++ [action]) w' w'.closing := by
  have step := perform_cases h
  generalize hstage : w'.closing = stage
  have stages := closing_cases h
  rw [hstage] at stages
  cases stages with
  | stay => exact hw.stay step
  | ask hbefore => trivial
  | goOn hbefore hended =>
      exact ⟨(step.ended hended).loops, past, [action], w, rfl, hrun, hbefore, hended, rfl⟩
  | done hbefore hnone =>
      rw [hbefore] at hw
      exact ⟨(step.ended hw.1).loops, (step.ended hw.1).handlings hnone⟩
  | @timeUp due hbefore hup =>
      rw [hbefore] at hw
      exact ⟨(step.ended hw.1).loops, due, Nat.le_trans hup step.now_le, hw.2.append _⟩

/-- **In every reachable state holds what the stage of closing says.** -/
theorem run_stageLaw (h : run actions (start config kind now) = some w) :
    (start config kind now).StageLaw actions w w.closing := by
  have kept := run_preserves
    (P := fun past _ w => run past (start config kind now) = some w ∧
      (start config kind now).StageLaw past w w.closing)
    ?_ [] [] ⟨rfl, trivial⟩ h
  · exact kept.2
  · rintro past log w action w' ⟨hrun, hw⟩ hperform
    refine ⟨?_, hw.perform hrun hperform⟩
    rw [run_append, hrun, Option.bind_some, run, hperform]
    rfl

/-- Once closing was asked for, it stays so, and asking again changes nothing. -/
theorem run_isClosed (hclosed : w.isClosed = true) (h : run actions w = some w') :
    w'.isClosed = true ∧ w'.perform .close = some w' := by
  have kept : w'.isClosed = true := by
    refine run_keeps (P := fun v => v.isClosed = true) ?_ hclosed h
    intro v action v' hv hperform
    have hasked : v.closing ≠ .notAsked := by simpa [isClosed] using hv
    generalize hstage : v'.closing = stage
    have stages := closing_cases hperform
    rw [hstage] at stages
    have hasked' : stage ≠ .notAsked := by
      cases stages with
      | stay => exact hasked
      | ask _ | goOn _ _ | done _ _ | timeUp _ _ => exact nofun
    simpa [isClosed, hstage] using hasked'
  exact ⟨kept, if_pos kept⟩

/-- Closing that is over stays as it is. -/
theorem run_finished {timedOut : Bool} (hfinished : w.closing = .finished timedOut) (h : run actions w = some w') :
    w'.closing = .finished timedOut := by
  refine run_keeps (P := fun v => v.closing = .finished timedOut) ?_ hfinished h
  intro v action v' hv hperform
  generalize hstage : v'.closing = stage
  have stages := closing_cases hperform
  rw [hstage] at stages
  cases stages with
  | stay => exact hv
  | ask hbefore | goOn hbefore _ | done hbefore _ | timeUp hbefore _ => rw [hv] at hbefore; cases hbefore

end Worker

end JobWorker
