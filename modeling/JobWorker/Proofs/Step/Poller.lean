import JobWorker.Poller
import JobWorker.Proofs.Step.Capacity

/-!
# `JobWorker.Proofs.Step.Poller` — what a poller's own step does

A turn of the poller is a walk through its phases. `Poller.Step` lists the legs of the walk, one line for each, with
what the poller has seen when it takes it and what it does to the queue. Every law of a poller's own steps is proved
by cases on the line.

## Contents
- **The end of a call.** `Poller.conclude_cases`, `Poller.follow_cases`.
- **Steps.** `Poller.Step`, `Poller.step_cases`.
-/

namespace JobWorker

namespace Poller

variable {now : Time} {p p' : Poller}

/-! ## The end of a call -/

/-- The conclusion from a result is the end of the turn or an interval of rest, and the end for good only where the
call was cancelled. -/
theorem conclude_cases (now : Time) (p : Poller) (result : Except ClientError Nat) :
    (p.conclude now result = .ended .polling ∧ ∀ e, result = .error e → e.endsPoll = true) ∨
    (p.conclude now result = .ended .stopped ∧ result = .error .cancelled) ∨
    ∃ e, p.conclude now result = .resting (Time.after now p.interval) ∧ result = .error e ∧ e.endsPoll = false := by
  cases result with
  | ok n => exact .inl ⟨rfl, fun e heq => nomatch heq⟩
  | error e =>
      by_cases hcancelled : e = .cancelled
      · rw [hcancelled]
        exact .inr (.inl ⟨rfl, rfl⟩)
      · have hconclude : p.conclude now (.error e) =
            if e.endsPoll then .ended .polling else .resting (Time.after now p.interval) := by
          cases e with
          | cancelled => exact absurd rfl hcancelled
          | _ => rfl
        rw [hconclude]
        cases hends : e.endsPoll with
        | true => exact .inl ⟨rfl, fun e' heq => by cases heq; exact hends⟩
        | false => exact .inr (.inr ⟨e, rfl, rfl, hends⟩)

/-- A call goes on, or the turn ends, or the poller rests. -/
theorem follow_cases (now : Time) (call : Activation) (p : Poller) :
    ((∀ result, call ≠ .finished result) ∧ p.follow now call = { p with phase := .calling call }) ∨
    ∃ result, call = .finished result ∧
      ((∃ turn, p.follow now call = { p with phase := .ended turn }) ∨
        ∃ due, p.follow now call = { p with phase := .resting due }) := by
  cases call with
  | opening | reading n => exact .inl ⟨by simp, rfl⟩
  | finished result =>
      have hfollow : p.follow now (.finished result) = { p with phase := p.conclude now result } := rfl
      refine .inr ⟨result, rfl, ?_⟩
      rw [hfollow]
      rcases conclude_cases now p result with ⟨hconclude, -⟩ | ⟨hconclude, -⟩ | ⟨e, hconclude, -⟩
      · exact .inl ⟨_, by rw [hconclude]⟩
      · exact .inl ⟨_, by rw [hconclude]⟩
      · exact .inr ⟨_, by rw [hconclude]⟩

/-! ## Steps -/

section Steps

variable (now : Time) (cancelled : Bool) (q : JobQueue Party Job)

/-- What a poller's own step makes of the poller and of the queue. -/
inductive Step : Poller → JobQueue Party Job → Poller → Prop where
  | leave {request interval} : cancelled = true →
      Step ⟨request, interval, .checking⟩ q ⟨request, interval, .ended .stopped⟩
  | begin {request interval} : cancelled = false →
      Step ⟨request, interval, .checking⟩ q ⟨request, interval, .measuring⟩
  | refill {request interval} : q.load.inHand < q.load.refillLevel →
      Step ⟨request, interval, .measuring⟩ q ⟨request, interval, .sizing⟩
  | wait {request interval} : q.load.refillLevel ≤ q.load.inHand →
      Step ⟨request, interval, .measuring⟩ q ⟨request, interval, .waiting (.begin now interval)⟩
  | turnBack {request interval due} : cancelled = true →
      Step ⟨request, interval, .waiting (.entering due)⟩ q ⟨request, interval, .waiting (.finished true)⟩
  | comeLate {request interval due} : due ≤ now →
      Step ⟨request, interval, .waiting (.entering due)⟩ q ⟨request, interval, .waiting (.finished false)⟩
  | passBy {request interval due} : (q.handled.wait .poller).2 = true →
      Step ⟨request, interval, .waiting (.entering due)⟩ { q with handled := (q.handled.wait .poller).1 }
        ⟨request, interval, .waiting (.finished false)⟩
  | park {request interval due} : (q.handled.wait .poller).2 = false →
      Step ⟨request, interval, .waiting (.entering due)⟩ { q with handled := (q.handled.wait .poller).1 }
        ⟨request, interval, .waiting (.parked due)⟩
  | giveUp {request interval due} : cancelled = true →
      Step ⟨request, interval, .waiting (.parked due)⟩ { q with handled := q.handled.leave .poller }
        ⟨request, interval, .waiting (.finished true)⟩
  | timeOut {request interval due} : due ≤ now →
      Step ⟨request, interval, .waiting (.parked due)⟩ { q with handled := q.handled.leave .poller }
        ⟨request, interval, .waiting (.finished false)⟩
  | wake {request interval due handled} : q.handled.take? .poller = some handled →
      Step ⟨request, interval, .waiting (.parked due)⟩ { q with handled }
        ⟨request, interval, .waiting (.finished false)⟩
  | waited {request interval stopped} : Step ⟨request, interval, .waiting (.finished stopped)⟩ q
      ⟨request, interval, .ended (if stopped then .stopped else .idle)⟩
  | ask {request interval} : Step ⟨request, interval, .sizing⟩ q
      ⟨{ request with maxJobs := min q.load.room maxRequested }, interval, .calling .opening⟩
  | follow {request interval call} : Step ⟨request, interval, .delivering call []⟩ q
      (follow now call ⟨request, interval, .delivering call []⟩)
  | count {request interval call job jobs} : Step ⟨request, interval, .delivering call (job :: jobs)⟩ q.count
      ⟨request, interval, .counted call job jobs⟩
  | store {request interval call job jobs} : Step ⟨request, interval, .counted call job jobs⟩ (q.store job)
      ⟨request, interval, .stored call jobs⟩
  | announce {request interval call jobs} : Step ⟨request, interval, .stored call jobs⟩ q.announce
      ⟨request, interval, .delivering call jobs⟩
  | breakOff {request interval due} : cancelled = true →
      Step ⟨request, interval, .resting due⟩ q ⟨request, interval, .ended .stopped⟩
  | rest {request interval due} : due ≤ now →
      Step ⟨request, interval, .resting due⟩ q ⟨request, interval, .ended .polling⟩

variable {now cancelled q}

/-- **Every own step is one of these.** -/
theorem step_cases {token timer : Bool} {q' : JobQueue Party Job}
    (h : p.step now cancelled token timer q = some (q', p')) : Step now cancelled q p q' p' := by
  obtain ⟨request, interval, phase⟩ := p
  cases phase with
  | checking =>
      cases hcancelled : cancelled with
      | true => rw [hcancelled] at h; cases h; exact .leave rfl
      | false => rw [hcancelled] at h; cases h; exact .begin rfl
  | measuring =>
      cases h
      cases hmore : q.load.wantsMore with
      | true => exact .refill (of_decide_eq_true hmore)
      | false => exact .wait (Nat.le_of_not_lt (of_decide_eq_false hmore))
  | waiting wait =>
      cases wait with
      | finished stopped => cases h; exact .waited
      | entering due =>
          obtain ⟨⟨queue, wait⟩, hwait, heq⟩ := Option.map_eq_some_iff.mp h
          cases heq
          cases CapacityWait.step_cases hwait with
          | turnBack hcancelled => exact .turnBack hcancelled
          | comeLate hdue => exact .comeLate hdue
          | passBy hwoken => exact .passBy hwoken
          | park hwoken => exact .park hwoken
      | parked due =>
          obtain ⟨⟨queue, wait⟩, hwait, heq⟩ := Option.map_eq_some_iff.mp h
          cases heq
          cases CapacityWait.step_cases hwait with
          | giveUp hcancelled => exact .giveUp hcancelled
          | timeOut hdue => exact .timeOut hdue
          | wake htake => exact .wake htake
  | sizing => cases h; exact .ask
  | calling call => cases h
  | delivering call jobs =>
      cases jobs with
      | nil => cases h; exact .follow
      | cons job jobs => cases h; exact .count
  | counted call job jobs => cases h; exact .store
  | stored call jobs => cases h; exact .announce
  | resting due =>
      simp only [step] at h
      repeat' split at h
      · rename_i hcancelled
        cases h
        exact .breakOff (Bool.and_eq_true_iff.mp hcancelled).1
      · rename_i hrested
        cases h
        exact .rest (of_decide_eq_true hrested)
      · cases h
  | ended turn => cases h

end Steps

end Poller

end JobWorker
