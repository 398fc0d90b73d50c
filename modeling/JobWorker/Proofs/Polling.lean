import JobWorker.Proofs.Occupancy
import JobWorker.Proofs.Polling.Discipline

/-!
# `JobWorker.Proofs.Polling` — when and for what a worker asks

A worker asks for jobs right after a look at the count of jobs in hand that found too few, and while handlings go on
in between, the count can only have gone down when the request is sized. So the request asks for exactly what is
missing to the limit, and for more than two fifths of it. A call that failed is followed by a whole interval without a
request, whatever else happens meanwhile; one that merely ended is not. And nothing that the gateway does ends the
loop, as long as it does not itself call an activation cancelled.

## Contents
- **Requests of a run.** `History.asked`, `Worker.asked_of_mem_events`, `Worker.run_disciplined`.
- **The last look.** `Worker.LookedBelow`, `Worker.run_looked`.
- **Rest.** `Worker.Step.resting`, `Worker.due_of_asked`.
- **No rest.** `Worker.nextTurn`, `Worker.asks_at_once`.
- **After the token.** `Poller.asksLeft`, `Worker.run_asksLeft`.
- **The law.** `Worker.run_asks_for_room`, `Worker.run_rests`, `Worker.run_goes_on`, and `Worker.run_polling`.
-/

namespace JobWorker

/-! ## Requests of a run -/

namespace History

variable (log log' : List Event)

/-- The requests that were sent, in order. -/
def asked : List ActivationRequest :=
  log.filterMap fun
    | .asked request => some request
    | _              => none

@[simp] theorem asked_append : asked (log ++ log') = asked log ++ asked log' := List.filterMap_append

variable {log}

theorem mem_asked {request : ActivationRequest} : request ∈ asked log ↔ .asked request ∈ log := by
  constructor
  · intro hmem
    obtain ⟨event, hevent, heq⟩ := List.mem_filterMap.mp hmem
    cases event <;> cases heq
    exact hevent
  · intro hmem
    exact List.mem_filterMap.mpr ⟨_, hmem, rfl⟩

end History

namespace Worker

open History

variable {config : WorkerConfig} {kind : HandlerKind} {now : Time}
variable {w w' : Worker} {action : Action} {actions : List Action} {request : ActivationRequest}

/-- A request is sent when its size is settled, for what is missing to the limit then. -/
theorem asked_of_mem_events (h : w.perform action = some w') (hmem : .asked request ∈ events action w w') :
    w.poller.phase = .sizing ∧
      request = { w.poller.request with maxJobs := min w.queue.load.room maxRequested } := by
  have hof := isOf_of_mem_events hmem
  cases action with
  | poll token timer =>
      obtain ⟨⟨queue, poller⟩, hstep, rfl⟩ := Option.map_eq_some_iff.mp h
      obtain ⟨config, kind, now, cancelled, q, p, dispatcher, freeSlots, launched, handlings, closing⟩ := w
      have step : Poller.Step now cancelled q p queue poller := Poller.step_cases hstep
      cases step with
      | ask =>
          cases List.mem_singleton.mp hmem
          exact ⟨rfl, rfl⟩
      | count | store => cases List.mem_singleton.mp hmem
      | _ => cases hmem
  | _ => cases hof

/-- The poller keeps to its rules along every run, and its requests say what the settings say. -/
theorem run_disciplined (h : run actions (start config kind now) = some w)
    (hgateway : .gateway (.failed .cancelled) ∉ actions) :
    w.poller.Disciplined config w.queue.load w.cancelled ∧
      ∀ request ∈ asked (history actions (start config kind now)), ∃ maxJobs, request = config.requestFor maxJobs := by
  have kept := run_preserves
    (P := fun past log w => .gateway (.failed .cancelled) ∉ past →
      w.poller.Disciplined config w.queue.load w.cancelled ∧
        ∀ request ∈ asked log, ∃ maxJobs, request = config.requestFor maxJobs) ?_ [] [] ?_ h
  · exact kept hgateway
  · intro past log w action w' hP hv hpast
    rw [List.mem_append, List.mem_singleton, not_or] at hpast
    obtain ⟨hw, hlog⟩ := hP hpast.1
    refine ⟨(perform_cases hv).disciplined (Ne.symm hpast.2) hw, fun request hmem => ?_⟩
    rw [asked_append, List.mem_append] at hmem
    rcases hmem with hmem | hmem
    · exact hlog request hmem
    · obtain ⟨-, hrequest⟩ := asked_of_mem_events hv (mem_asked.mp hmem)
      obtain ⟨maxJobs, hbefore⟩ := hw.request
      rw [hrequest, hbefore]
      exact ⟨_, rfl⟩
  · exact fun _ => ⟨start_disciplined, fun _ hmem => nomatch hmem⟩

/-! ## The last look -/

/-- In these actions the last one of the poller is a look at the count of jobs in hand, which is below the level. -/
def LookedBelow (start : Worker) (level : Nat) (past : List Action) : Prop :=
  ∃ front look between v, past = front ++ look :: between ∧ look.isPolling = true ∧
    (∀ action ∈ between, action.isPolling = false) ∧ run front start = some v ∧
    v.poller.phase = .measuring ∧ v.inHand < level

/-- **A request follows a look:** before its request is sized, the poller has looked and seen that there are too few
jobs in hand. -/
theorem run_looked (h : run actions (start config kind now) = some w) (hsizing : w.poller.phase = .sizing) :
    LookedBelow (start config kind now) ((max config.maxJobsActive 1 * 3 + 4) / 5) actions := by
  have kept := run_preserves
    (P := fun past _ w => run past (start config kind now) = some w ∧ (w.poller.phase = .sizing →
      LookedBelow (start config kind now) ((max config.maxJobsActive 1 * 3 + 4) / 5) past)) ?_ [] [] ?_ h
  · exact kept.2 hsizing
  · rintro past log w action w' ⟨hpast, hlooked⟩ hv
    refine ⟨by rw [run_append, hpast]; simp [run, hv], fun hsizing => ?_⟩
    cases hpolling : action.isPolling with
    | false =>
        -- nobody but the poller gets it to its request
        rw [(perform_frame hv).poller hpolling] at hsizing
        obtain ⟨front, look, between, v, rfl, hlook, hbetween, hfront⟩ := hlooked hsizing
        refine ⟨front, look, between ++ [action], v, by simp, hlook, fun other hmem => ?_, hfront⟩
        rcases List.mem_append.mp hmem with hmem | hmem
        · exact hbetween other hmem
        · rw [List.mem_singleton.mp hmem]
          exact hpolling
    | true =>
        cases perform_cases hv with
        | poll hstep =>
            obtain ⟨hmeasuring, hbelow, -⟩ := Poller.measuring_of_sizing hstep hsizing
            rw [Workload.refillLevel, run_limit hpast] at hbelow
            exact ⟨past, _, [], w, rfl, rfl, List.forall_mem_nil _, hpast, hmeasuring, hbelow⟩
        | again hagain => exact absurd hsizing (Poller.ne_sizing_of_asksLeft (Poller.again_asksLeft hagain))
        | hear hreceive _ => exact absurd hsizing (Poller.ne_sizing_of_asksLeft (Poller.receive_asksLeft hreceive))
        | aside haside _ _ =>
            rw [Action.isPolling_of_isAside haside] at hpolling
            cases hpolling
        | _ => cases hpolling
  · refine ⟨rfl, fun hsizing => ?_⟩
    cases hsizing

/-! ## Rest -/

/-- The clock does not go back. -/
theorem Step.now_le (step : w.Step action w') : w.now ≤ w'.now := by
  cases step with
  | aside _ hnow _ => exact hnow
  | @dispatch _ _ _ effect _ => cases effect <;> exact Nat.le_refl _
  | _ => exact Nat.le_refl _

/-- Nor does the token take its wish to stop back. -/
theorem Step.token (step : w.Step action w') (hw : w.cancelled = true) : w'.cancelled = true := by
  cases step with
  | aside _ _ htoken => exact htoken hw
  | @dispatch _ _ _ effect _ => cases effect <;> exact hw
  | _ => exact hw

/-- **A poller that rests goes on resting** until its interval is over, unless it is stopped. -/
theorem Step.resting {due : Time} (step : w.Step action w')
    (hw : w.poller.phase = .resting due ∨ w.poller.phase = .ended .stopped) :
    (w'.poller.phase = .resting due ∨ w'.poller.phase = .ended .stopped) ∨ due ≤ w'.now := by
  cases step with
  | poll hstep =>
      rcases hw with hresting | hstopped
      · rcases Poller.step_resting hstep hresting with hleft | hdue
        · exact .inl (.inr hleft)
        · exact .inr hdue
      · simp [Poller.step, hstopped] at hstep
  | again hagain => rcases hw with hw | hw <;> simp [Poller.again, hw] at hagain
  | hear hreceive _ => rcases hw with hw | hw <;> simp [Poller.receive, hw] at hreceive
  | @dispatch _ _ _ effect _ => cases effect <;> exact .inl hw
  | _ => exact .inl hw

/-- No request is sent until the interval is over. -/
theorem due_of_asked {due : Time} {rest : List Action} (hw : w.poller.phase = .resting due)
    {v v' : Worker} (h : run rest w = some v) (hv : v.perform action = some v')
    (hmem : .asked request ∈ events action v v') : due ≤ v.now := by
  have kept : (v.poller.phase = .resting due ∨ v.poller.phase = .ended .stopped) ∨ due ≤ v.now := by
    refine run_keeps (P := fun v => (v.poller.phase = .resting due ∨ v.poller.phase = .ended .stopped) ∨ due ≤ v.now)
      (fun {w action w'} hP hw' => ?_) (.inl (.inl hw)) h
    rcases hP with hresting | hdue
    · exact (perform_cases hw').resting hresting
    · exact .inr (Nat.le_trans hdue (perform_cases hw').now_le)
  obtain ⟨hsizing, -⟩ := asked_of_mem_events hv hmem
  rcases kept with (hresting | hstopped) | hdue
  · rw [hsizing] at hresting
    cases hresting
  · rw [hsizing] at hstopped
    cases hstopped
  · exact hdue

/-! ## No rest -/

/-- A turn up to its request. -/
def nextTurn : List Action := [.pollAgain, .poll true true, .poll true true, .poll true true]

/-- A poller whose turn ended asks again at once, if it is time to ask for more. -/
theorem asks_at_once (hended : w.poller.phase = .ended .polling) (hrunning : w.cancelled = false)
    (hmore : w.queue.load.wantsMore = true) :
    ∃ v, run nextTurn w = some v ∧ v.now = w.now ∧ (asked (history nextTurn w)).length = 1 := by
  obtain ⟨config, kind, now, cancelled, q, ⟨request, interval, phase⟩, dispatcher, freeSlots, launched, handlings,
    closing⟩ := w
  cases hended
  cases hrunning
  simp [nextTurn, run, history, perform, poll, Poller.again, Poller.step, hmore, events, asked]

/-! ## After the token -/

/-- What is not a step of the poller sends no request. -/
theorem asked_events_eq_nil (hpoll : ∀ token timer, action ≠ .poll token timer) : asked (events action w w') = [] := by
  refine List.filterMap_eq_nil_iff.mpr fun event hmem => ?_
  have hof := isOf_of_mem_events hmem
  cases event with
  | asked request => cases action <;> first | exact absurd rfl (hpoll _ _) | cases hof
  | _ => rfl

/-- **Under a token that has fired** every request uses up what is left to be sent. -/
theorem asked_add_asksLeft_le (h : w.perform action = some w') (hcancelled : w.cancelled = true) :
    (asked (events action w w')).length + w'.poller.asksLeft ≤ w.poller.asksLeft := by
  have hpoller := (perform_frame h).poller
  cases action with
  | poll token timer =>
      obtain ⟨⟨queue, poller⟩, hstep, rfl⟩ := Option.map_eq_some_iff.mp h
      obtain ⟨config, kind, now, cancelled, q, p, dispatcher, freeSlots, launched, handlings, closing⟩ := w
      have step : Poller.Step now cancelled q p queue poller := Poller.step_cases hstep
      cases step with
      | begin hrunning => cases hcancelled.symm.trans hrunning
      | wait => exact Nat.zero_le _
      | @follow request interval call =>
          have hnone := Poller.follow_asksLeft now call ⟨request, interval, .delivering call []⟩
          exact Nat.le_of_eq ((Nat.zero_add _).trans hnone)
      | _ => exact Nat.le_refl _
  | pollAgain =>
      obtain ⟨poller, hagain, rfl⟩ := Option.map_eq_some_iff.mp h
      show 0 + poller.asksLeft ≤ _
      rw [Poller.again_asksLeft hagain]
      exact Nat.zero_le _
  | gateway event =>
      obtain ⟨poller, hreceive, rfl, -⟩ := perform_gateway h
      rw [asked_events_eq_nil (by simp)]
      show 0 + poller.asksLeft ≤ _
      rw [Poller.receive_asksLeft hreceive]
      exact Nat.zero_le _
  | _ =>
      rw [asked_events_eq_nil (by simp), hpoller rfl]
      exact Nat.le_of_eq (Nat.zero_add _)

/-- So at most one request is sent under it. -/
theorem run_asksLeft (hcancelled : w.cancelled = true) (h : run actions w = some w') :
    (asked (history actions w)).length ≤ 1 := by
  have kept := run_preserves
    (P := fun _ log v => v.cancelled = true ∧ (asked log).length + v.poller.asksLeft ≤ w.poller.asksLeft)
    ?_ [] [] ⟨hcancelled, Nat.le_of_eq (Nat.zero_add _)⟩ h
  · have hstart : w.poller.asksLeft ≤ 1 := by
      unfold Poller.asksLeft
      split <;> decide
    exact Nat.le_trans (Nat.le_trans (Nat.le_add_right _ _) kept.2) hstart
  · rintro past log v action v' ⟨hfired, hleft⟩ hv
    refine ⟨(perform_cases hv).token hfired, ?_⟩
    have hone := asked_add_asksLeft_le hv hfired
    rw [asked_append, List.length_append]
    omega

end Worker

/-! ## The law -/

namespace Worker

open History

section Law

variable {config : WorkerConfig} {kind : HandlerKind} {now : Time} {actions : List Action}
variable {w w' : Worker} {event : CallEvent}

/-- A request asks for what is missing to the limit, for which there is still room. -/
theorem run_asks_for_room (h : run actions (start config kind now) = some w)
    (hgateway : .gateway (.failed .cancelled) ∉ actions) {action : Action} {request : ActivationRequest}
    (hv : w.perform action = some w') (hmem : .asked request ∈ events action w w') :
    w.inHand < (max config.maxJobsActive 1 * 3 + 4) / 5 ∧
      request = config.requestFor (min (max config.maxJobsActive 1 - w.inHand : Nat) maxSigned32) := by
  have hw := (run_disciplined h hgateway).1
  obtain ⟨hsizing, hrequest⟩ := asked_of_mem_events hv hmem
  obtain ⟨before, hbefore⟩ := hw.request
  have hbelow := hw.sized hsizing
  rw [Workload.refillLevel, run_limit h] at hbelow
  refine ⟨hbelow, ?_⟩
  rw [hrequest, hbefore, ← run_limit h]
  rfl

/-- Below three fifths of a limit more than two fifths of it are missing. -/
theorem two_fifths_lt_room {limit inHand : Nat} (h : inHand < (limit * 3 + 4) / 5) :
    ((min (2 * limit / 5 + 1) maxSigned32 : Nat) : Int) ≤ min ((limit - inHand : Nat) : Int) maxSigned32 := by
  have hroom : 2 * limit / 5 + 1 ≤ limit - inHand := by omega
  omega

/-- A call that failed for good is followed by an interval of rest. -/
theorem run_rests (h : run actions (start config kind now) = some w)
    (hgateway : .gateway (.failed .cancelled) ∉ actions) (hv : w.perform (.gateway event) = some w') {e : ClientError}
    (hend : w.poller.endedBy? event = some (.error e)) (hfatal : e.endsPoll = false) :
    w'.poller.phase = .resting (Time.after w.now config.pollInterval) := by
  have hw := (run_disciplined h hgateway).1
  obtain ⟨poller, hreceive, rfl, -⟩ := perform_gateway hv
  obtain ⟨rfl, -⟩ := Poller.receive_ended hw.unfinished hreceive hend
  show w.poller.conclude w.now (.error e) = _
  rw [← hw.interval]
  rcases Poller.conclude_cases w.now w.poller (.error e) with ⟨-, hends⟩ | ⟨-, heq⟩ | ⟨e', hconclude, -⟩
  · rw [hends e rfl] at hfatal
    cases hfatal
  · cases heq
    cases hfatal
  · exact hconclude

/-- A call that merely ended is followed by the end of the turn, unless the token stops the poller. -/
theorem run_goes_on (h : run actions (start config kind now) = some w)
    (hgateway : .gateway (.failed .cancelled) ∉ actions) (hv : w.perform (.gateway event) = some w')
    (hown : event ≠ .failed .cancelled) {result : Except ClientError Nat}
    (hend : w.poller.endedBy? event = some result) (hmild : ∀ e, result = .error e → e.endsPoll = true) :
    (w'.poller.isStopped = true ∧ w.cancelled = true) ∨ (w'.poller.phase = .ended .polling ∧
      (w'.cancelled = false → w'.inHand < (max config.maxJobsActive 1 * 3 + 4) / 5 →
        ∃ v, run nextTurn w' = some v ∧ v.now = w.now ∧ (asked (history nextTurn w')).length = 1)) := by
  have hw := (run_disciplined h hgateway).1
  obtain ⟨poller, hreceive, rfl, hcancelled⟩ := perform_gateway hv
  obtain ⟨rfl, hevent⟩ := Poller.receive_ended hw.unfinished hreceive hend
  rcases Poller.conclude_cases w.now w.poller result with ⟨hconclude, -⟩ | ⟨hconclude, heq⟩ | ⟨e, -, heq, hfatal⟩
  · refine .inr ⟨hconclude, fun hrunning hbelow => asks_at_once hconclude hrunning ?_⟩
    rw [Workload.wantsMore, decide_eq_true_eq, Workload.refillLevel]
    exact run_limit h ▸ hbelow
  · refine .inl ⟨by simp only [Poller.isStopped, hconclude], ?_⟩
    rcases hevent heq with htoken | hfailed
    · exact hcancelled htoken
    · exact absurd hfailed hown
  · rw [hmild e heq] at hfatal
    cases hfatal

/-- **A worker asks when it should and for what it should.** Take any run of a worker against a gateway that never
itself calls an activation cancelled.

A request is sent only after a look at the count of jobs in hand that found it below three fifths of the limit; it
still is below, and the request asks for what is missing to the limit, as far as a request can, so for more than two
fifths of it. All requests say what the settings say, and differ only in the number of jobs.

After a call that failed for good, no request is sent for one whole interval, whatever happens meanwhile. After a
call that merely ended there is no such wait: the turn is over, and where the count is low enough the worker asks
again without any time passing. Only under a token that has fired it may stop instead.

The loop ends only under a token that has fired, and under it at most one more request is sent. -/
theorem run_polling (h : run actions (start config kind now) = some w)
    (hgateway : .gateway (.failed .cancelled) ∉ actions) :
    let limit := max config.maxJobsActive 1
    let level := (limit * 3 + 4) / 5
    (∀ action w' request, w.perform action = some w' → .asked request ∈ events action w w' →
      LookedBelow (start config kind now) level actions ∧ w.inHand < level ∧
      request = config.requestFor (min (limit - w.inHand : Nat) maxSigned32) ∧
      (min (2 * limit / 5 + 1) maxSigned32 : Nat) ≤ request.maxJobs) ∧
    (∀ request ∈ asked (history actions (start config kind now)), ∃ maxJobs, request = config.requestFor maxJobs) ∧
    (∀ event w' e, w.perform (.gateway event) = some w' → w.poller.endedBy? event = some (.error e) →
      e.endsPoll = false → ∀ rest v action v' request, run rest w' = some v → v.perform action = some v' →
        .asked request ∈ events action v v' → Time.after w.now config.pollInterval ≤ v.now ∧
          (config.pollInterval.secs ≤ maxSigned64 →
            config.pollInterval.nanos ≤ (v.now - w.now) * nanosPerMilli)) ∧
    (∀ event w' result, w.perform (.gateway event) = some w' → event ≠ .failed .cancelled →
      w.poller.endedBy? event = some result → (∀ e, result = .error e → e.endsPoll = true) →
        (w'.poller.isStopped = true ∧ w.cancelled = true) ∨ (w'.poller.phase = .ended .polling ∧
          (w'.cancelled = false → w'.inHand < level →
            ∃ v, run nextTurn w' = some v ∧ v.now = w.now ∧ (asked (history nextTurn w')).length = 1))) ∧
    (w.poller.isStopped = true → w.cancelled = true) ∧
    (w.cancelled = true → ∀ rest v, run rest w = some v → (asked (history rest w)).length ≤ 1) := by
  intro limit level
  obtain ⟨hw, hlog⟩ := run_disciplined h hgateway
  refine ⟨fun action w' request hv hmem => ?_, hlog, fun event w' e hv hend hfatal => ?_,
    fun event w' result hv hown hend hmild => run_goes_on h hgateway hv hown hend hmild,
    fun hstopped => hw.told (Poller.isStopping_of_isStopped hstopped),
    fun hcancelled rest v hrest => run_asksLeft hcancelled hrest⟩
  · obtain ⟨hbelow, hrequest⟩ := run_asks_for_room h hgateway hv hmem
    have hlooked := run_looked h (asked_of_mem_events hv hmem).1
    exact ⟨hlooked, hbelow, hrequest, by rw [hrequest]; exact two_fifths_lt_room hbelow⟩
  · intro rest v action v' request hrest hv' hmem
    have hdue := due_of_asked (run_rests h hgateway hv hend hfatal) hrest hv' hmem
    exact ⟨hdue, fun hsecs => Time.nanos_le_of_after_le hsecs hdue⟩

end Law

/-- A worker for five jobs at a time, with an interval of 300 ticks. -/
def patient : Worker :=
  start { jobType := "foo", workerName := "worker", maxJobsActive := 5, pollInterval := .ofMillis 300 } .async 0

/-- A call that has brought one job and is still being read. -/
def openCallRun : List Action :=
  [.poll true true, .poll true true, .poll true true, .gateway .opened, .gateway (.response [{ key := 1 }]),
    .poll true true, .poll true true, .poll true true, .poll true true]

/-- An interval of rest, in which the job is handled, and a turn up to its request. -/
def restedRun : List Action :=
  [.dispatch true, .dispatch true, .dispatch true, .dispatch true, .dispatch true, .handle 0, .handle 0,
    .finish 0 (.ok ()), .handle 0, .handle 0, .handle 0, .retire 0, .pass 300, .poll true true,
    .pollAgain, .poll true true, .poll true true]

/-- The gateway denies a call while it is read. The job is handled meanwhile, and after the interval the worker asks
for all five jobs. -/
theorem polling_after_denial :
    ∃ w w' v v', run openCallRun patient = some w ∧ .gateway (.failed .cancelled) ∉ openCallRun ∧
      w.perform (.gateway (.failed (.rpc .permissionDenied "denied"))) = some w' ∧ run restedRun w' = some v ∧
      v.perform (.poll true true) = some v' ∧
      .asked (patient.config.requestFor 5) ∈ events (.poll true true) v v' ∧ v.inHand = 0 ∧ v.now = 300 ∧
      Time.after w.now patient.config.pollInterval ≤ v.now := by
  obtain ⟨w, hrun⟩ : ∃ w, run openCallRun patient = some w := ⟨_, rfl⟩
  have hgateway : .gateway (.failed .cancelled) ∉ openCallRun := by simp [openCallRun]
  obtain ⟨w', hdenied⟩ : ∃ w', w.perform (.gateway (.failed (.rpc .permissionDenied "denied"))) = some w' := by
    cases hrun
    exact ⟨_, rfl⟩
  obtain ⟨v, hrested⟩ : ∃ v, run restedRun w' = some v := by
    cases hrun
    cases hdenied
    exact ⟨_, rfl⟩
  obtain ⟨v', hasks⟩ : ∃ v', v.perform (.poll true true) = some v' := by
    cases hrun
    cases hdenied
    cases hrested
    exact ⟨_, rfl⟩
  have hend : w.poller.endedBy? (.failed (.rpc .permissionDenied "denied")) =
      some (.error (.rpc .permissionDenied "denied")) := by
    cases hrun
    rfl
  have hasked : .asked (patient.config.requestFor 5) ∈ events (.poll true true) v v' := by
    cases hrun
    cases hdenied
    cases hrested
    cases hasks
    exact List.mem_singleton.mpr rfl
  have hdue := ((run_polling hrun hgateway).2.2.1 _ _ _ hdenied hend rfl _ _ _ _ _ hrested hasks hasked).1
  refine ⟨w, w', v, v', hrun, hgateway, hdenied, hrested, hasks, hasked, ?_, ?_, hdue⟩
  · cases hrun
    cases hdenied
    cases hrested
    rfl
  · cases hrun
    cases hdenied
    cases hrested
    rfl

end Worker

end JobWorker
