import JobWorker.Proofs.Step.Poller
import JobWorker.Proofs.Supply

/-!
# `JobWorker.Proofs.Delivery.OpenCall` — the open call, from the poller to the gateway

Three parts know about an activation call: the poller that waits for it, the link that carries it, and the
gateway that serves it. Poller and link **fit** when they agree how far the call has come. What each of the
parts can do is said here once, in a form that forgets everything but the call and the jobs on their way.

## Contents
- **Agreement.** `Poller.call?`, `Link.Fits`.
- **The poller.** `Poller.OwnStep`: by itself it goes on with the open call or opens one.
- **The gateway.** `Gateway.nextBatch?_cases`, `Call.step_supply`.
- **The link.** `Link.Step`, `Link.step_cases`.
-/

namespace JobWorker

/-! ## The open call -/

/-- How far the open call of a poller has come, if there is an open call. -/
def Poller.call? (p : Poller) : Option Activation :=
  match p.phase with
  | .calling call | .delivering call _ | .counted call _ _ | .stored call _ => some call
  | _                                                                       => none

/-- Whether a link and an open call belong together, for a worker of this name. -/
def Link.Fits (name : String) : Link → Option Activation → Prop
  | .idle, none                  => True
  | .idle, some .opening         => True
  | .opening call, some .opening => call.request.worker = name
  | .streaming _, some (.reading _) => True
  | _, _                         => False

/-- Without an open call nothing is on the link. -/
theorem Link.Fits.batches_eq_nil {name : String} {link : Link} (h : link.Fits name none) :
    link.batches = [] := by
  cases link with
  | idle => rfl
  | opening _ | streaming _ => exact h.elim

/-- The call of a link that has none is yet to be opened. -/
theorem Link.Fits.call_of_idle {name : String} {call : Activation} (h : Link.idle.Fits name (some call)) :
    call = .opening := by
  cases call <;> first | rfl | exact h.elim

theorem Link.Fits.call_of_opening {name : String} {c : Call} {call : Activation}
    (h : (Link.opening c).Fits name (some call)) : call = .opening ∧ c.request.worker = name := by
  cases call with
  | opening => exact ⟨rfl, h⟩
  | reading _ | finished _ => exact h.elim

theorem Link.Fits.call_of_streaming {name : String} {rest : List Batch} {call : Activation}
    (h : (Link.streaming rest).Fits name (some call)) : ∃ n, call = .reading n := by
  cases call with
  | reading n => exact ⟨n, rfl⟩
  | opening | finished _ => exact h.elim

/-! ## The poller -/

namespace Poller

/-- The poller goes on without the gateway: a step of its turn, or the next turn. -/
inductive OwnStep (p : Poller) (p' : Poller) : Prop where
  | step (now : Time) (cancelled token timer : Bool) (q q' : JobQueue Party Job) :
      p.step now cancelled token timer q = some (q', p') → OwnStep p p'
  | again : p.again = some p' → OwnStep p p'

variable {p p' : Poller}

/-- A poller that has stopped goes no further. -/
theorem OwnStep.not_stopped (h : p.OwnStep p') : p.isStopped = false := by
  obtain ⟨request, interval, phase⟩ := p
  cases phase with
  | ended turn =>
      cases h with
      | step => contradiction
      | again h => cases turn <;> first | rfl | cases h
  | _ => rfl

/-- What may become of the open call in a step of the poller itself: it stays, or there was none and one is
opened. The name on the request is the same in any case. -/
def Keeps (p p' : Poller) : Prop :=
  p'.request.worker = p.request.worker ∧
    (p'.call? = p.call? ∨ p.call? = none ∧ p'.call? = some .opening)

theorem step_keeps {now : Time} {cancelled token timer : Bool} {q q' : JobQueue Party Job}
    (hopen : ∀ result, p.call? ≠ some (.finished result))
    (h : p.step now cancelled token timer q = some (q', p')) : p.Keeps p' := by
  cases step_cases h with
  | ask => exact ⟨rfl, .inr ⟨rfl, rfl⟩⟩
  | @follow _ _ call =>
      rcases follow_cases now call _ with ⟨-, hfollow⟩ | ⟨result, rfl, -⟩
      · rw [hfollow]
        exact ⟨rfl, .inl rfl⟩
      · exact absurd rfl (hopen result)
  | _ => exact ⟨rfl, .inl rfl⟩

/-- **By itself the poller goes on with the open call,** or, where there is none, opens one. -/
theorem OwnStep.keeps (hopen : ∀ result, p.call? ≠ some (.finished result)) (h : p.OwnStep p') :
    p.Keeps p' := by
  cases h with
  | step now cancelled token timer q q' h => exact step_keeps hopen h
  | again h =>
      obtain ⟨request, interval, phase⟩ := p
      cases phase with
      | ended turn => cases turn <;> cases h <;> exact ⟨rfl, .inl rfl⟩
      | _ => cases h

/-- Whatever the poller does by itself, it still fits its link. -/
theorem OwnStep.fits {name : String} {link : Link} (h : p.OwnStep p') (hfits : link.Fits name p.call?) :
    link.Fits name p'.call? ∧ p'.request.worker = p.request.worker := by
  have hopen : ∀ result, p.call? ≠ some (.finished result) := by
    intro result heq
    rw [heq] at hfits
    cases link <;> exact hfits.elim
  obtain ⟨hworker, hsame | ⟨hnone, hopening⟩⟩ := h.keeps hopen
  · exact ⟨hsame ▸ hfits, hworker⟩
  · rw [hnone] at hfits
    refine ⟨?_, hworker⟩
    cases link with
    | idle => rw [hopening]; trivial
    | opening _ | streaming _ => exact hfits.elim

/-- A poller that has stopped has no call. -/
theorem call?_of_isStopped (h : p.isStopped = true) : p.call? = none := by
  obtain ⟨request, interval, phase⟩ := p
  cases phase with
  | ended turn => rfl
  | _ => cases h

end Poller

/-! ## The gateway -/

/-- A gateway serves the front batch whole, or cuts it and keeps the rest in front. -/
theorem Gateway.nextBatch?_cases {g g' : Gateway} {n : Nat} {name : String} {served : Batch}
    (h : g.nextBatch? n name = some (served, g')) : ∃ batch later, g.batches = batch :: later ∧
      (served = handTo name batch ∧ g'.batches = later ∨
        served = handTo name (batch.take n) ∧ g'.batches = batch.drop n :: later) := by
  unfold nextBatch? at h
  split at h
  · cases h
  · rename_i batch later hbatches
    cases h
    refine ⟨batch, later, hbatches, ?_⟩
    by_cases hn : n < batch.length
    · exact .inr ⟨rfl, by simp only [if_pos hn]⟩
    · refine .inl ⟨?_, by simp only [if_neg hn]⟩
      rw [List.take_of_length_le (Nat.le_of_not_lt hn)]
      rfl

/-- Commands leave the batches of a gateway alone. -/
theorem Gateway.attempt_batches (request : CommandRequest) (g : Gateway) :
    (g.attempt request).1.batches = g.batches := by
  simp only [attempt]
  split
  · cases request <;> rfl
  · rfl

/-- A call that has an answer is over. -/
theorem Call.phase_of_answer? (c : Call) {answer : Except ClientError (List Batch)}
    (h : c.answer? = some answer) : c.phase = .answered answer := by
  unfold answer? at h
  split at h
  · rename_i hphase
    cases h
    exact hphase
  · cases h

/-- **A step of a call** at a gateway serves a batch or leaves the supply as it is. -/
theorem Call.step_supply {c c' : Call} {g g' : Gateway} {now : Time} {timer : Bool} (cancelled : Bool)
    (h : c.step now timer g = some (g', c')) :
    c'.request = c.request ∧ Supply.Step c.request.worker
      ⟨g.batches, (Link.opening c).batches, false, cancelled⟩ [] [] []
      ⟨g'.batches, (Link.opening c').batches, false, cancelled⟩ := by
  obtain ⟨request, phase⟩ := c
  have served : ∀ {batch : Batch} {g' : Gateway} {phase : CallPhase},
      (Link.opening { request, phase }).batches = [] →
      g.nextBatch? request.maxJobs.toNat request.worker = some (batch, g') →
      Supply.Step request.worker ⟨g.batches, (Link.opening { request, phase }).batches, false, cancelled⟩
        [] [] [] ⟨g'.batches, [batch], false, cancelled⟩ := by
    intro batch g' phase hnone hnext
    obtain ⟨front, later, hfront, ⟨rfl, hwhole⟩ | ⟨rfl, hcut⟩⟩ := Gateway.nextBatch?_cases hnext
    · rw [hwhole]
      exact .serve rfl hnone hfront
    · rw [hcut]
      exact .cut _ rfl hnone hfront
  cases phase with
  | arriving =>
      simp only [step, Gateway.accept] at h
      cases hfailures : g.activationFailures with
      | nil =>
          simp only [hfailures] at h
          cases h
          exact ⟨rfl, .quiet⟩
      | cons status later =>
          simp only [hfailures] at h
          cases h
          exact ⟨rfl, .quiet⟩
  | accepted => cases h; exact ⟨rfl, .quiet⟩
  | looking seen =>
      simp only [step] at h
      split at h
      · rename_i batch g₁ hnext
        cases h
        exact ⟨rfl, served rfl hnext⟩
      · cases h
        exact ⟨rfl, .quiet⟩
  | held seen due =>
      simp only [step] at h
      repeat' split at h
      · cases h
        exact ⟨rfl, .quiet⟩
      · simp only [serve] at h
        split at h
        · rename_i batch g₁ hnext
          cases h
          exact ⟨rfl, served rfl hnext⟩
        · cases h
          exact ⟨rfl, .quiet⟩
      · cases h
  | answered answer => cases h

/-! ## The link -/

/-- What a step of a link does at the gateway, what becomes of the link, and what the caller hears. -/
inductive Link.Step (now : Time) (cancelled timer : Bool) (request : ActivationRequest) (g : Gateway) :
    Link → Gateway → Link → Option CallEvent → Prop where
  | begin : Step now cancelled timer request g .idle g (.opening { request }) none
  | cut {link} : cancelled = true → Step now cancelled timer request g link g .idle (some .cancelled)
  | goOn {c c' g'} : c.step now timer g = some (g', c') →
      Step now cancelled timer request g (.opening c) g' (.opening c') none
  | answer {c responses} : c.phase = .answered (.ok responses) →
      Step now cancelled timer request g (.opening c) g (.streaming responses) (some .opened)
  | refuse {c e} : c.phase = .answered (.error e) →
      Step now cancelled timer request g (.opening c) g .idle (some (.failed e))
  | finish : Step now cancelled timer request g (.streaming []) g .idle (some .ended)
  | respond {batch rest} :
      Step now cancelled timer request g (.streaming (batch :: rest)) g (.streaming rest)
        (some (.response batch))

/-- **Every step of a link is one of these.** -/
theorem Link.step_cases {now : Time} {cancelled token timer : Bool} {request : ActivationRequest}
    {g g' : Gateway} {link link' : Link} {event : Option CallEvent}
    (h : link.step now cancelled token timer request g = some (g', link', event)) :
    Link.Step now cancelled timer request g link g' link' event := by
  by_cases hcut : (cancelled && token) = true
  · have hcancelled : cancelled = true := (Bool.and_eq_true_iff.mp hcut).1
    cases link <;> (simp only [step, if_pos hcut] at h; cases h; exact .cut hcancelled)
  · cases link with
    | idle =>
        simp only [step, if_neg hcut] at h
        cases h
        exact .begin
    | opening c =>
        simp only [step, if_neg hcut] at h
        split at h
        · rename_i responses hanswer
          cases h
          exact .answer (c.phase_of_answer? hanswer)
        · rename_i e hanswer
          cases h
          exact .refuse (c.phase_of_answer? hanswer)
        · split at h
          · rename_i hcall
            cases h
            exact .goOn hcall
          · -- nothing is ready but the token
            split at h
            · rename_i hcancelled
              cases h
              exact .cut hcancelled
            · cases h
    | streaming rest =>
        simp only [step, if_neg hcut] at h
        cases rest <;> cases h
        · exact .finish
        · exact .respond

end JobWorker
