import JobWorker.Worker

/-!
# `JobWorker.Proofs.Breakdown.Alike` — failures are alike

A handler can fail in many ways, and a worker makes no difference between them: which failure it was stands in
the text of the report, and nothing else depends on it. Said as a law, **blurring** a worker, which puts one
text in the place of all others, commutes with every action. So two runs that begin with different failures are
possible for the same actions, and lead to workers that differ in texts only.

## Contents
- **Blurring.** `HandlingPhase.blur`, `Handling.blur`, `Worker.blur`.
- **Actions and runs.** `Worker.perform_blur`, `Worker.run_blur`.
-/

namespace JobWorker

/-! ## Blurring -/

/-- A phase without the text of a failure. -/
def HandlingPhase.blur : HandlingPhase → HandlingPhase
  | .returned (.error _)       => .returned (.error .panicked)
  | .reporting (.fail request) => .reporting (.fail { request with message := "" })
  | phase                      => phase

/-- A handling without the text of a failure. -/
def Handling.blur (h : Handling) : Handling := { h with phase := h.phase.blur }

/-- A worker without the texts of failures: everything else of it is as it was. -/
def Worker.blur (w : Worker) : Worker := { w with handlings := w.handlings.map Handling.blur }

namespace Handling

variable {ι α : Type} [DecidableEq ι] {config : WorkerConfig} {kind : HandlerKind} {q : JobQueue ι α}

@[simp] theorem blur_blur (h : Handling) : h.blur.blur = h.blur := by
  obtain ⟨id, job, used, phase⟩ := h
  cases phase with
  | returned result => cases result <;> rfl
  | reporting request => cases request <;> rfl
  | _ => rfl

/-- A handling goes on in the same way, whatever the text of its failure, and so it does from outside. -/
theorem step_blur (h : Handling) : (h.blur.step config kind q).map (fun r => (r.1, r.2.blur)) =
    (h.step config kind q).map fun r => (r.1, r.2.blur) := by
  obtain ⟨id, job, used, phase⟩ := h
  cases phase with
  | returned result => cases result <;> rfl
  | reporting request => cases request <;> rfl
  | _ => rfl

theorem outside_blur (result : HandlerResult) (h : Handling) :
    (h.blur.use).map blur = h.use.map blur ∧ (h.blur.finish result).map blur = (h.finish result).map blur ∧
      (h.blur.answered).map blur = h.answered.map blur := by
  obtain ⟨id, job, used, phase⟩ := h
  cases phase with
  | returned result => cases result <;> exact ⟨rfl, rfl, rfl⟩
  | reporting request => cases request <;> exact ⟨rfl, rfl, rfl⟩
  | _ => exact ⟨rfl, rfl, rfl⟩

end Handling

namespace Worker

variable {w v : Worker} {id : Nat}

theorem handlings_blur_blur (hs : List Handling) :
    (hs.map Handling.blur).map Handling.blur = hs.map Handling.blur := by
  rw [List.map_map]
  exact List.map_congr_left fun h _ => h.blur_blur

@[simp] theorem blur_blur (w : Worker) : w.blur.blur = w.blur := by
  simp only [blur, handlings_blur_blur]

theorem handling?_blur (w : Worker) (id : Nat) :
    w.blur.handling? id = (w.handling? id).map Handling.blur := by
  show (w.handlings.map Handling.blur).find? _ = _
  rw [List.find?_map]
  rfl

theorem blur_setHandling (w : Worker) (h : Handling) :
    (w.setHandling h).blur = w.blur.setHandling h.blur := by
  have hsame : (w.handlings.map fun other => if other.id == h.id then h else other).map Handling.blur =
      (w.handlings.map Handling.blur).map fun other => if other.id == h.blur.id then h.blur else other := by
    rw [List.map_map, List.map_map]
    refine List.map_congr_left fun other _ => ?_
    show Handling.blur (if _ then _ else _) = if other.id == h.id then h.blur else other.blur
    split <;> rfl
  simp only [setHandling, blur, hsame]

theorem blur_dropHandling (w : Worker) (id : Nat) : (w.dropHandling id).blur = w.blur.dropHandling id := by
  simp only [dropHandling, blur, List.filter_map]
  rfl

/-- What happens to a handling from outside does not depend on the text of a failure. -/
theorem outside_blur {f : Handling → Option Handling}
    (hf : ∀ h, (f h.blur).map Handling.blur = (f h).map Handling.blur) (id : Nat) (w : Worker) :
    ((w.blur.handling? id).bind fun h => (f h).map w.blur.setHandling).map blur =
      ((w.handling? id).bind fun h => (f h).map w.setHandling).map blur := by
  rw [handling?_blur]
  cases w.handling? id with
  | none => rfl
  | some h =>
      show ((f h.blur).map w.blur.setHandling).map blur = ((f h).map w.setHandling).map blur
      have hset : ∀ v : Worker, v.blur = w.blur →
          (fun h => (v.setHandling h).blur) = w.blur.setHandling ∘ Handling.blur := by
        intro v hv
        funext h
        rw [blur_setHandling, hv, Function.comp]
      rw [Option.map_map, Option.map_map, Function.comp_def, Function.comp_def, hset w.blur w.blur_blur,
        hset w rfl, ← Option.map_map, ← Option.map_map, hf]

/-- A handling's own step, as a map. -/
theorem handle_eq_map (id : Nat) (w : Worker) : w.handle id =
    (w.handling? id).bind fun h => (h.step w.config w.kind w.queue).map fun r =>
      { w with queue := r.1 }.setHandling r.2 := by
  unfold handle
  cases w.handling? id with
  | none => rfl
  | some h =>
      show (h.step w.config w.kind w.queue).bind _ = (h.step w.config w.kind w.queue).map _
      cases h.step w.config w.kind w.queue <;> rfl

/-- A handling's own step does not depend on the text of its failure. -/
theorem handle_blur (id : Nat) (w : Worker) : (w.blur.handle id).map blur = (w.handle id).map blur := by
  rw [handle_eq_map, handle_eq_map, handling?_blur]
  cases w.handling? id with
  | none => rfl
  | some h =>
      show ((h.blur.step w.config w.kind w.queue).map _).map blur =
        ((h.step w.config w.kind w.queue).map _).map blur
      have hset : ∀ v : Worker, v.blur = w.blur →
          (fun r : JobQueue Party Job × Handling => ({ v with queue := r.1 }.setHandling r.2).blur) =
            (fun r => { w.blur with queue := r.1 }.setHandling r.2) ∘ fun r => (r.1, r.2.blur) := by
        intro v hv
        funext r
        have hqueue : { v with queue := r.1 }.blur = { v.blur with queue := r.1 } := rfl
        rw [blur_setHandling, hqueue, hv]
        rfl
      rw [Option.map_map, Option.map_map, Function.comp_def, Function.comp_def, hset w.blur w.blur_blur,
        hset w rfl, ← Option.map_map, ← Option.map_map, h.step_blur]

/-- **No action depends on the text of a failure.** -/
theorem perform_blur (action : Action) (w : Worker) :
    (w.blur.perform action).map blur = (w.perform action).map blur := by
  -- all that an action may do besides is to blur again what is blurred
  have htwice : (w.handlings.map Handling.blur).map Handling.blur = w.handlings.map Handling.blur :=
    handlings_blur_blur w.handlings
  have heard : ∀ f : Poller → Option Poller,
      ((f w.poller).map fun poller => { w.blur with poller }).map blur =
        ((f w.poller).map fun poller => { w with poller }).map blur := by
    intro f
    cases f w.poller with
    | none => rfl
    | some poller => simp only [Option.map_some, blur, htwice]
  cases action with
  | poll token timer =>
      simp only [perform, poll, Option.map_map]
      congr 1
      funext r
      simp only [Function.comp_def, blur, htwice]
  | pollAgain => exact heard Poller.again
  | gateway event =>
      cases event with
      | cancelled =>
          simp only [perform]
          show (if w.cancelled then _ else none : Option Worker).map blur = _
          split
          · exact heard (·.receive w.now .cancelled)
          · rfl
      | _ => exact heard (·.receive w.now _)
  | dispatch token =>
      simp only [perform, dispatch, Option.map_map]
      congr 1
      funext r
      obtain ⟨queue, dispatcher, effect⟩ := r
      cases effect <;> simp only [Function.comp_def, apply, blur, List.map_append, htwice]
  | handle id => exact handle_blur id w
  | use id => exact outside_blur (fun h => (h.outside_blur (.ok ())).1) id w
  | finish id result => exact outside_blur (fun h => (h.outside_blur result).2.1) id w
  | answer id => exact outside_blur (fun h => (h.outside_blur (.ok ())).2.2) id w
  | retire id | collapse id =>
      have hdrop : (w.blur.dropHandling id).blur = (w.dropHandling id).blur := by
        rw [blur_dropHandling, blur_dropHandling, blur_blur]
      simp only [perform, retire, collapse]
      rw [handling?_blur]
      cases w.handling? id with
      | none => rfl
      | some h =>
          obtain ⟨i, job, used, phase⟩ := h
          cases phase with
          | returned result => cases result <;> rfl
          | reporting request => cases request <;> rfl
          | releasing | calling =>
              -- the one of the two actions that this phase allows drops the handling
              first | rfl | exact congrArg some hdrop
          | _ => rfl
  | cancel | pass ticks => simp only [perform, Option.map_some, blur, htwice]
  | close =>
      simp only [perform]
      show (if w.isClosed then _ else _ : Option Worker).map blur = _
      split <;> simp only [Option.map_some, blur, htwice]
  | endLoops =>
      simp only [perform, endLoops]
      show (if w.closing = .endingLoops ∧ w.loopsEnded = true then _ else _ : Option Worker).map blur = _
      split <;> simp only [Option.map_some, Option.map_none, blur, htwice]
  | endHandlings timer =>
      have hempty : w.blur.handlings.isEmpty = w.handlings.isEmpty := List.isEmpty_map
      have hclosing : w.blur.closing = w.closing := rfl
      have hnow : w.blur.now = w.now := rfl
      simp only [perform, endHandlings, hempty, hclosing, hnow]
      cases w.closing with
      | endingHandlings due =>
          by_cases hup : due ≤ w.now <;> cases w.handlings.isEmpty <;> cases timer <;>
            simp [hup, blur, htwice]
      | _ => rfl

/-- **So no run does:** two workers that differ in the texts of failures only go the same way. -/
theorem run_blur {actions : List Action} (h : w.blur = v.blur) :
    (run actions w).map blur = (run actions v).map blur := by
  induction actions generalizing w v with
  | nil => exact congrArg some h
  | cons action actions ih =>
      have hfirst : (w.perform action).map blur = (v.perform action).map blur := by
        rw [← perform_blur action w, h, perform_blur action v]
      rw [run, run]
      cases hw : w.perform action with
      | none =>
          cases hv : v.perform action with
          | none => rfl
          | some v' => rw [hw, hv] at hfirst; cases hfirst
      | some w' =>
          cases hv : v.perform action with
          | none => rw [hw, hv] at hfirst; cases hfirst
          | some v' =>
              rw [hw, hv] at hfirst
              exact ih (Option.some.inj hfirst)

end Worker

end JobWorker
