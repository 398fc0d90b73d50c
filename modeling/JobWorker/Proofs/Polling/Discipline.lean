import JobWorker.Proofs.Delivery.OpenCall
import JobWorker.Proofs.Step
import JobWorker.Proofs.Wakeup.Dispatcher

/-!
# `JobWorker.Proofs.Polling.Discipline` — what a poller keeps to

From turn to turn a poller keeps to a few rules. Its request says what the settings say, apart from the number of
jobs. Between its look at the count of jobs and its request the count can only go down, because nobody else adds to
it. The call it reads is one that is not over. And it stops only when the token has fired, unless the gateway itself
calls an activation cancelled.

## Contents
- **Requests.** `WorkerConfig.requestFor`.
- **The rules.** `Poller.isStopping`, `Poller.Disciplined`.
- **Own steps.** `Poller.asksLeft`, `Poller.step_request`, `Poller.measuring_of_sizing`, `Poller.step_resting`,
  `Poller.Disciplined.step`.
- **Steps from outside.** `Poller.endedBy?`, `Poller.receive_cases`, `Poller.receive_ended`,
  `Poller.Disciplined.receive`, `Poller.Disciplined.again`.
- **Workers.** `Worker.Step.disciplined`.
-/

namespace JobWorker

/-! ## Requests -/

/-- What a worker with these settings sends to ask for a number of jobs. -/
def WorkerConfig.requestFor (config : WorkerConfig) (maxJobs : Int) : ActivationRequest where
  jobType := config.jobType
  worker := config.workerName
  timeout := config.timeout.millisUpTo maxSigned64
  maxJobs := maxJobs
  fetchVariables := config.fetchVariables
  requestTimeout := config.pollingTimeout.millisUpTo maxSigned64
  tenantIds := config.tenantIds

/-! ## The rules -/

/-- Whether a poller has been stopped, or is about to end its turn in this way. -/
def Poller.isStopping (p : Poller) : Bool :=
  match p.phase with
  | .ended .stopped | .waiting (.finished true) => true
  | _                                           => false

theorem Poller.isStopping_of_isStopped {p : Poller} (h : p.isStopped = true) : p.isStopping = true := by
  unfold isStopped at h
  unfold isStopping
  split at h
  · rename_i hended
    rw [hended]
  · cases h

/-- The rules of a poller, for the count of jobs in hand and the token. -/
structure Poller.Disciplined (config : WorkerConfig) (load : Workload) (cancelled : Bool) (p : Poller) :
    Prop where
  request : ∃ maxJobs, p.request = config.requestFor maxJobs
  interval : p.interval = config.pollInterval
  unfinished : ∀ result, p.call? ≠ some (.finished result)
  sized : p.phase = .sizing → load.inHand < load.refillLevel
  told : p.isStopping = true → cancelled = true

namespace Poller

variable {config : WorkerConfig} {load load' : Workload} {p p' : Poller} {q q' : JobQueue Party Job}
variable {now : Time} {cancelled cancelled' token timer : Bool} {event : CallEvent}

/-- The rules do not mind a handling that counts its job down, or a token that fires. -/
theorem Disciplined.mono (hp : p.Disciplined config load cancelled) (hmax : load'.maxJobs = load.maxJobs)
    (hless : load'.inHand ≤ load.inHand) (htoken : cancelled = true → cancelled' = true) :
    p.Disciplined config load' cancelled' := by
  refine ⟨hp.request, hp.interval, hp.unfinished, fun hsizing => ?_, fun hstopping => htoken (hp.told hstopping)⟩
  have hbelow := hp.sized hsizing
  unfold Workload.refillLevel at hbelow ⊢
  rw [hmax]
  exact Nat.lt_of_le_of_lt hless hbelow

/-! ## Own steps -/

/-- A step changes nothing of the request but the number of jobs, and nothing of the interval. -/
theorem step_request (h : p.step now cancelled token timer q = some (q', p')) :
    (∃ maxJobs, p'.request = { p.request with maxJobs }) ∧ p'.interval = p.interval := by
  cases step_cases h with
  | follow => exact ⟨⟨_, rfl⟩, rfl⟩
  | _ => exact ⟨⟨_, rfl⟩, rfl⟩

/-- How many requests a poller sends before it looks at the token again: one, if it has got past the token. -/
def asksLeft (p : Poller) : Nat :=
  match p.phase with
  | .measuring | .sizing => 1
  | _                    => 0

theorem ne_sizing_of_asksLeft (h : p.asksLeft = 0) : p.phase ≠ .sizing := by
  intro hsizing
  rw [asksLeft, hsizing] at h
  cases h

/-- A call that goes on or is over leads to the token before it leads to a request. -/
theorem follow_asksLeft (now : Time) (call : Activation) (p : Poller) : (p.follow now call).asksLeft = 0 := by
  rcases follow_cases now call p with ⟨-, hfollow⟩ | ⟨result, -, ⟨turn, hfollow⟩ | ⟨due, hfollow⟩⟩ <;>
    (rw [hfollow]; rfl)

/-- Before a poller works out how many jobs to ask for, it has looked and found that there are too few in hand. -/
theorem measuring_of_sizing (h : p.step now cancelled token timer q = some (q', p')) (hp : p'.phase = .sizing) :
    p.phase = .measuring ∧ q.load.inHand < q.load.refillLevel ∧ q' = q := by
  cases step_cases h with
  | refill hbelow => exact ⟨rfl, hbelow, rfl⟩
  | follow => exact absurd hp (ne_sizing_of_asksLeft (follow_asksLeft _ _ _))
  | _ => cases hp

/-- A poller that rests goes on only when it is stopped or its interval is over. -/
theorem step_resting {due : Time} (h : p.step now cancelled token timer q = some (q', p'))
    (hp : p.phase = .resting due) : p'.phase = .ended .stopped ∨ due ≤ now := by
  cases step_cases h with
  | breakOff => exact .inl rfl
  | rest hdue => cases hp; exact .inr hdue
  | _ => cases hp

/-- A step leads to the end only under a token that has fired. -/
theorem step_told (hunfinished : ∀ result, p.call? ≠ some (.finished result))
    (htold : p.isStopping = true → cancelled = true)
    (h : p.step now cancelled token timer q = some (q', p')) (hp : p'.isStopping = true) : cancelled = true := by
  cases step_cases h with
  | leave hcancelled | turnBack hcancelled | giveUp hcancelled | breakOff hcancelled => exact hcancelled
  | @waited _ _ stopped =>
      cases stopped with
      | true => exact htold rfl
      | false => cases hp
  | @follow _ _ call =>
      rcases follow_cases now call _ with ⟨-, hfollow⟩ | ⟨result, rfl, -⟩
      · rw [hfollow] at hp
        cases hp
      · exact absurd rfl (hunfinished result)
  | _ => cases hp

/-- **By its own steps a poller keeps to the rules.** -/
theorem Disciplined.step (hp : p.Disciplined config q.load cancelled)
    (h : p.step now cancelled token timer q = some (q', p')) : p'.Disciplined config q'.load cancelled := by
  obtain ⟨⟨maxJobs, hrequest⟩, hinterval⟩ := step_request h
  obtain ⟨before, hbefore⟩ := hp.request
  refine ⟨⟨maxJobs, ?_⟩, hinterval.trans hp.interval, fun result hfinished => ?_, fun hsizing => ?_,
    step_told hp.unfinished hp.told h⟩
  · rw [hrequest, hbefore]
    rfl
  · obtain ⟨-, hsame | ⟨-, hopening⟩⟩ := step_keeps hp.unfinished h
    · exact hp.unfinished result (hsame ▸ hfinished)
    · rw [hopening] at hfinished
      cases hfinished
  · obtain ⟨-, hbelow, hqueue⟩ := measuring_of_sizing h hsizing
    rw [hqueue]
    exact hbelow

/-! ## Steps from outside -/

/-- A call that is not over goes on by an event, or is over with a result. It is cancelled only by an event that
says so. -/
theorem on_cases {call : Activation} (hunfinished : ∀ result, call ≠ .finished result) (event : CallEvent) :
    (∃ n jobs, call.on event = (.reading n, some jobs)) ∨
    (∃ call', (∀ result, call' ≠ .finished result) ∧ call.on event = (call', none)) ∨
    ∃ result, call.on event = (.finished result, none) ∧
      (result = .error .cancelled → event = .cancelled ∨ event = .failed .cancelled) := by
  cases call with
  | finished result => exact absurd rfl (hunfinished result)
  | opening =>
      cases event with
      | opened | response batch | ended => exact .inr (.inl ⟨_, by simp, rfl⟩)
      | failed e => exact .inr (.inr ⟨_, rfl, fun heq => .inr (by cases heq; rfl)⟩)
      | expired deadline => exact .inr (.inr ⟨_, rfl, fun heq => nomatch heq⟩)
      | cancelled => exact .inr (.inr ⟨_, rfl, fun _ => .inl rfl⟩)
  | reading n =>
      cases event with
      | response batch => exact .inl ⟨_, _, rfl⟩
      | opened => exact .inr (.inl ⟨_, by simp, rfl⟩)
      | ended => exact .inr (.inr ⟨_, rfl, fun heq => nomatch heq⟩)
      | failed e => exact .inr (.inr ⟨_, rfl, fun heq => .inr (by cases heq; rfl)⟩)
      | expired deadline => exact .inr (.inr ⟨_, rfl, fun heq => nomatch heq⟩)
      | cancelled => exact .inr (.inr ⟨_, rfl, fun _ => .inl rfl⟩)

/-- The result with which the open call is over by an event, if it is. -/
def endedBy? (event : CallEvent) (p : Poller) : Option (Except ClientError Nat) :=
  match p.phase with
  | .calling call => (call.on event).1.result?
  | _             => none

/-- What a poller with a call that is not over makes of an event: it delivers jobs, goes on with the call, or draws
the conclusion from its result. -/
theorem receive_cases (hunfinished : ∀ result, p.call? ≠ some (.finished result))
    (h : p.receive now event = some p') :
    (∃ n jobs, p.endedBy? event = none ∧ p' = { p with phase := .delivering (.reading n) jobs }) ∨
    (∃ call, (∀ result, call ≠ .finished result) ∧ p.endedBy? event = none ∧
      p' = { p with phase := .calling call }) ∨
    ∃ result, p.endedBy? event = some result ∧ p' = { p with phase := p.conclude now result } ∧
      (result = .error .cancelled → event = .cancelled ∨ event = .failed .cancelled) := by
  obtain ⟨request, interval, phase⟩ := p
  cases phase with
  | calling call =>
      have hcall : ∀ result, call ≠ .finished result := by
        rintro result rfl
        exact hunfinished result rfl
      rcases on_cases hcall event with ⟨n, jobs, hon⟩ | ⟨call', hcall', hon⟩ | ⟨result, hon, hcancelled⟩
      · simp only [receive, hon, Option.some.injEq] at h
        exact .inl ⟨n, jobs, by simp [endedBy?, hon, Activation.result?], h.symm⟩
      · simp only [receive, hon, Option.some.injEq] at h
        refine .inr (.inl ⟨call', hcall', ?_, ?_⟩)
        · cases call' with
          | finished result => exact absurd rfl (hcall' result)
          | opening | reading n => simp [endedBy?, hon, Activation.result?]
        · cases call' with
          | finished result => exact absurd rfl (hcall' result)
          | opening | reading n => exact h.symm
      · simp only [receive, hon, Option.some.injEq] at h
        exact .inr (.inr ⟨result, by simp [endedBy?, hon, Activation.result?], h.symm, hcancelled⟩)
  | _ => cases h

/-- A poller whose call is over draws the conclusion from its result. -/
theorem receive_ended {result : Except ClientError Nat} (hunfinished : ∀ result, p.call? ≠ some (.finished result))
    (h : p.receive now event = some p') (hend : p.endedBy? event = some result) :
    p' = { p with phase := p.conclude now result } ∧
      (result = .error .cancelled → event = .cancelled ∨ event = .failed .cancelled) := by
  rcases receive_cases hunfinished h with ⟨n, jobs, hnone, -⟩ | ⟨call, -, hnone, -⟩ | ⟨result', hsome, hconclude⟩
  · rw [hnone] at hend
    cases hend
  · rw [hnone] at hend
    cases hend
  · rw [hsome] at hend
    cases hend
    exact hconclude

/-- What comes from outside leads to the token before it leads to a request. -/
theorem receive_asksLeft (h : p.receive now event = some p') : p'.asksLeft = 0 := by
  unfold receive at h
  repeat' split at h
  all_goals cases h
  · rfl
  · exact follow_asksLeft now _ p

/-- So does the beginning of a turn. -/
theorem again_asksLeft (h : p.again = some p') : p'.asksLeft = 0 := by
  unfold again at h
  split at h <;> cases h
  rfl

/-- A poller in another phase keeps to the rules if it is not about to ask, and stops only under the token. -/
theorem Disciplined.turnTo {phase : PollPhase} (hp : p.Disciplined config load cancelled)
    (hunfinished : ∀ result, ({ p with phase } : Poller).call? ≠ some (.finished result))
    (hsizing : phase ≠ .sizing) (htold : ({ p with phase } : Poller).isStopping = true → cancelled = true) :
    ({ p with phase } : Poller).Disciplined config load cancelled :=
  ⟨hp.request, hp.interval, hunfinished, fun heq => absurd heq hsizing, htold⟩

/-- **By what comes from outside a poller keeps to the rules,** unless the gateway itself calls an activation
cancelled. -/
theorem Disciplined.receive (hp : p.Disciplined config load cancelled) (h : p.receive now event = some p')
    (hown : event = .cancelled → cancelled = true) (hgateway : event ≠ .failed .cancelled) :
    p'.Disciplined config load cancelled := by
  rcases receive_cases hp.unfinished h with ⟨n, jobs, -, rfl⟩ | ⟨call, hcall, -, rfl⟩ | ⟨result, -, rfl, hevent⟩
  · exact hp.turnTo (by simp [call?]) (by simp) (by simp [isStopping])
  · exact hp.turnTo (by simpa [call?] using hcall) (by simp) (by simp [isStopping])
  · rcases conclude_cases now p result with ⟨hconclude, -⟩ | ⟨hconclude, hresult⟩ | ⟨e, hconclude, -, -⟩
    · rw [hconclude]
      exact hp.turnTo (by simp [call?]) (by simp) (by simp [isStopping])
    · -- the call was cancelled, which the gateway does not do by itself
      rw [hconclude]
      refine hp.turnTo (by simp [call?]) (by simp) fun _ => ?_
      rcases hevent hresult with hcancelled | hfailed
      · exact hown hcancelled
      · exact absurd hfailed hgateway
    · rw [hconclude]
      exact hp.turnTo (by simp [call?]) (by simp) (by simp [isStopping])

/-- So it does at the beginning of a turn. -/
theorem Disciplined.again (hp : p.Disciplined config load cancelled) (h : p.again = some p') :
    p'.Disciplined config load cancelled := by
  unfold Poller.again at h
  split at h <;> cases h
  exact hp.turnTo (by simp [call?]) (by simp) (by simp [isStopping])

end Poller

/-! ## Workers -/

/-- The poller of a worker that has just been opened keeps to the rules. -/
theorem Worker.start_disciplined {config : WorkerConfig} {kind : HandlerKind} {now : Time} :
    (start config kind now).poller.Disciplined config (start config kind now).queue.load
      (start config kind now).cancelled :=
  ⟨⟨0, rfl⟩, rfl, (fun _ heq => nomatch heq), (fun hsizing => nomatch hsizing), fun hstopping => nomatch hstopping⟩

/-- **Every action keeps the poller to its rules,** unless the gateway itself calls an activation cancelled. -/
theorem Worker.Step.disciplined {config : WorkerConfig} {w w' : Worker} {action : Action}
    (step : w.Step action w') (hgateway : action ≠ .gateway (.failed .cancelled))
    (hw : w.poller.Disciplined config w.queue.load w.cancelled) :
    w'.poller.Disciplined config w'.queue.load w'.cancelled := by
  cases step with
  | poll hstep => exact hw.step hstep
  | again hagain => exact hw.again hagain
  | hear hreceive hown => exact hw.receive hreceive hown fun heq => hgateway (congrArg Action.gateway heq)
  | @dispatch token queue dispatcher effect hstep =>
      have hload := (Dispatcher.step_frame hstep).1
      have hsame : w.poller.Disciplined config queue.load w.cancelled := by
        rw [hload]
        exact hw
      cases effect <;> exact hsame
  | @handle id hd hd' queue hh hstep =>
      obtain ⟨-, -, hmax, hinHand⟩ := Handling.step_next hstep
      refine hw.mono hmax ?_ fun hcancelled => hcancelled
      show queue.load.inHand ≤ w.queue.load.inHand
      rw [hinHand]
      split
      · exact Nat.sub_le _ _
      · exact Nat.le_refl _
  | retire _ _ | collapse _ _ | use _ _ | finish _ _ _ | answer _ _ => exact hw
  | aside _ _ htoken => exact hw.mono rfl (Nat.le_refl _) htoken

end JobWorker
