import JobWorker.Proofs.Closing.Completion
import JobWorker.Proofs.Closing.Stages
import JobWorker.Proofs.History.Deployment

/-!
# `JobWorker.Proofs.Closing` — closing a worker

Closing is over when both loops have ended and then either no handling is left or the time allowed for them is up.
From then on the worker asks for nothing and takes nothing out of its queue; but nothing is broken off either. Each
job that was taken goes on through its handling, also one that closing did not wait for.

## Contents
- **The gateway.** `Deployment.requests_eq`.
- **Own moves.** `Move.IsOwn`, `Move.ofAction`, `Deployment.run_ofAction`, `Deployment.run_complete`.
- **What closing waited for.** `Worker.done_of_finished`.
- **The law.** `Deployment.run_closes`.
-/

namespace JobWorker

open History

/-! ## The gateway -/

/-- Commands leave the recorded requests of a gateway alone. -/
theorem Gateway.attempt_requests (request : CommandRequest) (g : Gateway) :
    (g.attempt request).1.requests = g.requests := by
  unfold attempt
  cases g.commandFailures with
  | nil => cases request <;> rfl
  | cons status later => rfl

namespace Deployment

variable {config : WorkerConfig} {kind : HandlerKind} {now : Time} {gateway : Gateway}
variable {d d' : Deployment} {move : Move} {moves : List Move}

/-- Without a poller that calls, no request reaches the gateway. -/
theorem perform_requests (hended : d.worker.loopsEnded = true) (h : d.perform move = some d') :
    d'.gateway.requests = d.gateway.requests := by
  obtain ⟨hpoller, -⟩ := Worker.loopsEnded_iff.mp hended
  cases move with
  | worker action =>
      simp only [perform, act] at h
      split at h
      · cases h
      · cases h
      · obtain ⟨_, -, rfl⟩ := Option.map_eq_some_iff.mp h
        rfl
  | call token timer =>
      obtain ⟨call, _, hcalling, -, -⟩ := call_cases h
      rw [hpoller] at hcalling
      cases hcalling
  | report id =>
      simp only [perform, report] at h
      obtain ⟨hd, -, h⟩ := Option.bind_eq_some_iff.mp h
      split at h
      · obtain ⟨_, -, h⟩ := Option.bind_eq_some_iff.mp h
        cases h
        exact Gateway.attempt_requests _ _
      · cases h
  | command request =>
      cases h
      exact Gateway.attempt_requests _ _
  | push batch | failActivations status times | failCommands status times =>
      cases h
      rfl

/-- Where the loops have ended, no further request reaches the gateway. -/
theorem run_requests (hended : d.worker.loopsEnded = true) (h : d.run moves = some d') :
    d'.gateway.requests = d.gateway.requests := by
  have kept := run_keeps
    (P := fun v => v.worker.loopsEnded = true ∧ v.gateway.requests = d.gateway.requests) ?_ ⟨hended, rfl⟩ h
  · exact kept.2
  · rintro v move v' ⟨hv, hsame⟩ hperform
    exact ⟨(Worker.run_ended hv (perform_worker hperform).1).loops, (perform_requests hv hperform).trans hsame⟩

end Deployment

/-! ## Own moves -/

/-- A move of a handling alone: its own step, the return of its handler with a given result, its report, or its
end. -/
def Move.IsOwn (id : Nat) (result : HandlerResult) : Move → Prop
  | .worker action => action.IsOwn id result
  | .report i      => i = id
  | _              => False

/-- The move by which a deployment carries out an action of a handling: the answer to a report is the gateway's. -/
def Move.ofAction : Action → Move
  | .answer id => .report id
  | action     => .worker action

theorem Move.isOwn_ofAction {id : Nat} {result : HandlerResult} {action : Action} (h : action.IsOwn id result) :
    (Move.ofAction action).IsOwn id result := by
  cases action <;> exact h

namespace Deployment

variable {d d' : Deployment} {id : Nat} {result : HandlerResult} {action : Action} {actions : List Action} {w : Worker}

/-- What a handling can do in a worker, it can do in a deployment of this worker. -/
theorem perform_ofAction (hown : action.IsOwn id result) (h : d.worker.perform action = some w) :
    ∃ d', d.perform (.ofAction action) = some d' ∧ d'.worker = w ∧
      events (.ofAction action) d d' = Worker.events action d.worker w := by
  cases action with
  | handle i | finish i result | retire i =>
      refine ⟨{ d with worker := w }, ?_, rfl, rfl⟩
      show Option.map _ _ = _
      rw [h]
      rfl
  | answer i =>
      obtain ⟨hd, hd', hh, hanswered, hw⟩ := Worker.outside_cases h
      cases hp : hd.phase <;> simp only [Handling.answered, hp] at hanswered <;> cases hanswered
      rename_i request
      refine ⟨{ d with worker := w, gateway := (d.gateway.attempt request).1 }, ?_, rfl, rfl⟩
      show d.report i = _
      simp only [report, hh, hp, h, Option.bind_eq_bind, Option.bind_some]
      rfl
  | _ => cases hown

theorem run_ofAction (hown : ∀ action ∈ actions, action.IsOwn id result)
    (h : Worker.run actions d.worker = some w) :
    ∃ d', d.run (actions.map Move.ofAction) = some d' ∧ d'.worker = w ∧
      history (actions.map Move.ofAction) d = Worker.history actions d.worker := by
  induction actions generalizing d with
  | nil => cases h; exact ⟨d, rfl, rfl, rfl⟩
  | cons action actions ih =>
      obtain ⟨v, hv, h⟩ := Option.bind_eq_some_iff.mp h
      obtain ⟨d₁, hd₁, rfl, hevents⟩ := perform_ofAction (hown action List.mem_cons_self) hv
      obtain ⟨d', hd', hw, hhistory⟩ := ih (fun a ha => hown a (List.mem_cons_of_mem _ ha)) h
      refine ⟨d', ?_, hw, ?_⟩
      · rw [List.map_cons, run, hd₁]
        exact hd'
      · rw [List.map_cons, history, hd₁, Worker.history, hv]
        show events _ d d₁ ++ history (actions.map Move.ofAction) d₁ = _
        rw [hevents, hhistory]

/-- Every handling of a deployment can be brought to its end by its own moves, whatever its handler comes back with. -/
theorem run_complete {log : List Event} {h : Handling} (result : HandlerResult) (hn : d.worker.ledger.Numbered)
    (hrecorded : d.worker.ledger.Recorded log) (hh : h ∈ d.worker.handlings) :
    ∃ moves d', (∀ move ∈ moves, move.IsOwn h.id result) ∧ run moves d = some d' ∧
      d'.worker.handling? h.id = none ∧ (h.job, h.id) ∈ passings .released (log ++ history moves d) := by
  obtain ⟨actions, w, hown, hrun, hgone, hpassed⟩ :=
    Worker.run_complete result hn hrecorded (Worker.handling?_of_mem hn hh)
  obtain ⟨d', hd', rfl, hhistory⟩ := run_ofAction hown hrun
  refine ⟨actions.map Move.ofAction, d', ?_, hd', hgone, hhistory ▸ hpassed⟩
  intro move hmem
  obtain ⟨action, haction, rfl⟩ := List.mem_map.mp hmem
  exact Move.isOwn_ofAction (hown action haction)

/-- A collapse in a deployment is a move of its own. -/
theorem mem_of_collapse_mem {moves : List Move} (hmem : .collapse id ∈ Deployment.actions moves d) :
    .worker (.collapse id) ∈ moves := by
  induction moves generalizing d with
  | nil => cases hmem
  | cons move moves ih =>
      rw [Deployment.actions] at hmem
      split at hmem
      · rcases List.mem_append.mp hmem with hfirst | hrest
        · refine List.mem_cons.mpr (.inl ?_)
          rw [Option.mem_toList] at hfirst
          cases move with
          | worker action =>
              cases hfirst
              rfl
          | call token timer =>
              simp only [action?] at hfirst
              split at hfirst <;> cases hfirst
          | _ => cases hfirst
        · exact List.mem_cons_of_mem _ (ih hrest)
      · cases hmem

end Deployment

/-! ## What closing waited for -/

namespace Worker

variable {config : WorkerConfig} {kind : HandlerKind} {now : Time} {actions : List Action} {w : Worker}

/-- Where the loops have ended, no job is between two places: those that were taken are in handling. -/
theorem awaiting_of_ended (hended : w.loopsEnded = true) (m : Milestone) :
    w.ledger.awaiting m = Handling.awaiting m w.handlings := by
  have hheld : w.ledger.held = none := by
    show w.dispatcher.held = none
    rw [(loopsEnded_iff.mp hended).2]
    rfl
  rw [Ledger.awaiting, hheld]
  exact List.append_nil _

/-- Without a collapse, each job that was taken has passed a milestone or is in handling before it. -/
theorem once_of_ended (h : run actions (start config kind now) = some w) (hended : w.loopsEnded = true)
    (hc : ∀ id, .collapse id ∉ actions) (m : Milestone) :
    (passings m (history actions (start config kind now)) ++ Handling.awaiting m w.handlings).Perm
      (taken (history actions (start config kind now))).zipIdx := by
  have honce := (run_balanced h).once m
  rwa [losses_history m hc, List.append_nil, awaiting_of_ended hended] at honce

/-- Where no handling is left either, all jobs that were taken are done, and only those in the queue are in hand. -/
theorem done_of_finished (h : run actions (start config kind now) = some w) (hended : w.loopsEnded = true)
    (hc : ∀ id, .collapse id ∉ actions) (hnone : w.handlings = []) :
    (passings .released (history actions (start config kind now))).Perm
      (taken (history actions (start config kind now))).zipIdx ∧ w.inHand = w.queue.jobs.length := by
  have hempty : ∀ m, Handling.awaiting m w.handlings = [] := fun m => hnone ▸ rfl
  have hdone := once_of_ended h hended hc .released
  rw [hempty, List.append_nil] at hdone
  refine ⟨hdone, ?_⟩
  have hinHand := (run_balanced h).inHand_eq
  have hentering : w.ledger.entering = none := by
    show w.poller.entering = none
    rw [Poller.entering, (loopsEnded_iff.mp hended).1]
  rw [losses_history _ hc, awaiting_of_ended hended, hempty, hentering] at hinHand
  show w.ledger.inHand = w.ledger.queue.length
  rw [hinHand]
  exact Nat.zero_add _

/-- A time that closing waited for is the time allowed for handlings, from a moment of the run on. -/
theorem WaitedSince.elapsed {due : Time} (hwaited : (start config kind now).WaitedSince actions due)
    (hdue : due ≤ w.now) :
    ∃ front back v, actions = front ++ back ∧ run front (start config kind now) = some v ∧
      v.closing = .endingLoops ∧ v.loopsEnded = true ∧ Time.after v.now config.shutdownTimeout ≤ w.now ∧
      (config.shutdownTimeout.secs ≤ maxSigned64 →
        config.shutdownTimeout.nanos ≤ (w.now - v.now) * nanosPerMilli) := by
  obtain ⟨front, back, v, hsplit, hrun, hclosing, hended, rfl⟩ := hwaited
  have hconfig : v.config = config := by
    refine run_keeps (P := fun v => v.config = config) ?_ rfl hrun
    intro v action v' hv hperform
    exact (perform_frame hperform).config.trans hv
  rw [hconfig] at hdue
  exact ⟨front, back, v, hsplit, hrun, hclosing, hended, hdue, fun hsecs => Time.nanos_le_of_after_le hsecs hdue⟩

end Worker

/-! ## The law -/

namespace Deployment

variable {config : WorkerConfig} {kind : HandlerKind} {now : Time} {gateway : Gateway}
variable {before : List Move} {d : Deployment}

/-- **Closing a worker** at a gateway in memory, in any order of events. Once closing was asked for, the worker stays
closed, and asking again changes nothing.

When closing is over, both loops have ended. Either the time allowed for handlings has passed since a moment at
which they had, or no handling is left; then, if none collapsed, every job that was taken has been handled to the
end, and as many jobs are in hand as are in the queue.

Whatever happens afterwards, no request is sent and no job is taken. The jobs in the queue are those that were put
into it and never taken. The handler of each job that was taken was called once or is about to be called; without a
collapse each such job has passed every other milestone once, or its handling is there and before it. The reports
that were made and those still due are what the outcomes call for that the handlings have found or have yet to look
at. Each handling has one outcome at most, and there is one for each job that was counted down. And each handling that
is there can come to its end by its own moves, with whatever result. -/
theorem run_closes (h : run before (start config kind now gateway) = some d) :
    let opened := start config kind now gateway
    (d.worker.isClosed = true → ∀ after d', run after d = some d' →
      d'.worker.isClosed = true ∧ d'.perform (.worker .close) = some d') ∧
    ∀ timedOut, d.worker.closing = .finished timedOut →
      d.worker.loopsEnded = true ∧
      (timedOut = true → ∃ front back v, actions before opened = front ++ back ∧
        Worker.run front opened.worker = some v ∧ v.closing = .endingLoops ∧ v.loopsEnded = true ∧
        Time.after v.now config.shutdownTimeout ≤ d.worker.now ∧
        (config.shutdownTimeout.secs ≤ maxSigned64 →
          config.shutdownTimeout.nanos ≤ (d.worker.now - v.now) * nanosPerMilli)) ∧
      (timedOut = false → d.worker.handlings = [] ∧ ((∀ id, .worker (.collapse id) ∉ before) →
        (passings .released (history before opened)).Perm (taken (history before opened)).zipIdx ∧
        d.worker.inHand = d.worker.queue.jobs.length)) ∧
      ∀ after d', run after d = some d' →
        let log := history (before ++ after) opened
        let outs := History.outcomes log ++ d'.worker.ledger.pending
        d'.worker.loopsEnded = true ∧ d'.worker.closing = .finished timedOut ∧
        asked (history after d) = [] ∧ d'.gateway.requests = d.gateway.requests ∧
        taken (history after d) = [] ∧ d'.worker.queue.jobs = d.worker.queue.jobs ∧
        queued log = taken log ++ d'.worker.queue.jobs ∧
        (passings .invoked log ++ Handling.awaiting .invoked d'.worker.handlings).Perm (taken log).zipIdx ∧
        ((∀ id, .worker (.collapse id) ∉ before ++ after) → ∀ m,
          (passings m log ++ Handling.awaiting m d'.worker.handlings).Perm (taken log).zipIdx) ∧
        (History.attempts log ++ d'.worker.ledger.attemptsDue config).Perm (outs.flatMap (·.commands config)) ∧
        (outs.map (·.id)).Nodup ∧ (∀ x ∈ passings .discounted log, ∃ o ∈ outs, (o.job, o.id) = x) ∧
        ∀ hd ∈ d'.worker.handlings, ∀ result : HandlerResult, ∃ moves d'', (∀ move ∈ moves, move.IsOwn hd.id result) ∧
          run moves d' = some d'' ∧ d''.worker.handling? hd.id = none ∧
          (hd.job, hd.id) ∈ passings .released (log ++ history moves d') := by
  intro opened
  obtain ⟨hactions, hhistory⟩ := run_actions h
  have hhistory : Worker.history (actions before opened) (Worker.start config kind now) = history before opened :=
    hhistory
  refine ⟨fun hclosed after d' hafter => ?_, fun timedOut hfinished => ?_⟩
  · obtain ⟨hstays, hsame⟩ := Worker.run_isClosed hclosed (run_actions hafter).1
    refine ⟨hstays, ?_⟩
    show (d'.worker.perform .close).map (fun worker => { d' with worker }) = some d'
    rw [hsame]
    rfl
  have hlaw := Worker.run_stageLaw hactions
  rw [hfinished] at hlaw
  have hended : d.worker.loopsEnded = true := by
    cases timedOut with
    | true => exact hlaw.1
    | false => exact hlaw.1
  refine ⟨hended, ?_, ?_, fun after d' hafter => ?_⟩
  · rintro rfl
    obtain ⟨-, due, hdue, hwaited⟩ := hlaw
    exact hwaited.elapsed hdue
  · rintro rfl
    refine ⟨hlaw.2, fun hc => ?_⟩
    have hdone := Worker.done_of_finished hactions hended (fun id hmem => hc id (mem_of_collapse_mem hmem)) hlaw.2
    rwa [hhistory] at hdone
  · intro log outs
    have hall : run (before ++ after) opened = some d' := by
      rw [run_append, h]
      exact hafter
    obtain ⟨hactions', hhistory'⟩ := run_actions hall
    have hhistory' : Worker.history (actions (before ++ after) opened) (Worker.start config kind now) = log :=
      hhistory'
    obtain ⟨hlater, hhistoryLater⟩ := run_actions hafter
    have hended' := Worker.run_ended hended hlater
    obtain ⟨hasked, htaken⟩ := Worker.history_ended hended hlater
    have hbalanced := Worker.run_balanced hactions'
    have hsettled := Worker.run_account hactions'
    have hqueued := Worker.run_queued hactions'
    have hinvoked := hbalanced.once .invoked
    have hrecorded := Worker.run_recorded hactions'
    rw [losses_invoked, List.append_nil, Worker.awaiting_of_ended hended'.loops] at hinvoked
    rw [hhistory'] at hbalanced hinvoked hqueued hsettled hrecorded
    rw [hhistoryLater] at hasked htaken
    refine ⟨hended'.loops, Worker.run_finished hfinished hlater, hasked, run_requests hended hafter, htaken,
      hended'.jobs, hqueued, hinvoked, ?_, .of_eq hsettled.commands, hsettled.distinct hbalanced,
      fun x hx => ?_, ?_⟩
    · intro hc m
      have honce := Worker.once_of_ended hactions' hended'.loops (fun id hmem => hc id (mem_of_collapse_mem hmem)) m
      rwa [hhistory'] at honce
    · obtain ⟨o, hmem, hplace⟩ := hsettled.handled hbalanced x hx
      exact ⟨o, List.mem_append_left _ hmem, hplace⟩
    · intro hd hmem result
      exact run_complete result hbalanced.numbered hrecorded hmem

/-- A worker with one slot that completes jobs and gives handlings 100 ticks to end, at a gateway that serves
nothing yet. -/
def single : Deployment :=
  start { jobType := "foo", workerName := "worker", maxJobsActive := 2, autoCompletion := true,
          shutdownTimeout := .ofMillis 100 } .async 0 {}

/-- Two jobs come in, and closing is asked for while the handler of the first one runs and the call is still open.
Both loops end. -/
def closingRun : List Move :=
  let poll := .worker (.poll true true)
  let call := .call true true
  let dispatch := .worker (.dispatch true)
  [.push [{ key := 1 }, { key := 2 }], poll, poll, poll, call, call, call, call, call, call, poll, poll, poll, poll,
    poll, poll, poll, dispatch, dispatch, dispatch, dispatch, dispatch, .worker (.handle 0), .worker (.handle 0),
    .worker .close, call, dispatch, .worker .endLoops]

/-- The handler comes back, and the handling goes to its end. -/
def handledRun : List Move :=
  [.worker (.finish 0 (.ok ())), .worker (.handle 0), .report 0, .worker (.handle 0), .worker (.handle 0),
    .worker (.retire 0)]

/-- If the handler takes too long, closing does not wait for it, but its job is completed all the same; otherwise
closing ends with the handling. The second job stays in the queue. -/
theorem closes_with_handler_running :
    (∃ d d', run (closingRun ++ [.worker (.pass 100), .worker (.endHandlings true)]) single = some d ∧
      d.worker.closing = .finished true ∧ run handledRun d = some d' ∧
      d'.gateway.completed = [{ key := 1, vars := "" }] ∧ d'.worker.queue.jobs.map (·.key) = [2] ∧
      taken (history handledRun d) = [] ∧ d'.gateway.requests = d.gateway.requests) ∧
    ∃ d, run (closingRun ++ handledRun ++ [.worker (.endHandlings false)]) single = some d ∧
      d.worker.closing = .finished false ∧ d.worker.inHand = d.worker.queue.jobs.length := by
  refine ⟨?_, ?_⟩
  · obtain ⟨d, hrun⟩ : ∃ d, run (closingRun ++ [.worker (.pass 100), .worker (.endHandlings true)]) single = some d :=
      ⟨_, rfl⟩
    have hfinished : d.worker.closing = .finished true := by
      cases hrun
      rfl
    obtain ⟨d', hlater⟩ : ∃ d', run handledRun d = some d' := by
      cases hrun
      exact ⟨_, rfl⟩
    obtain ⟨-, -, -, hafter⟩ := (run_closes hrun).2 true hfinished
    obtain ⟨-, -, -, hrequests, htaken, -⟩ := hafter handledRun d' hlater
    refine ⟨d, d', hrun, hfinished, hlater, ?_, ?_, htaken, hrequests⟩
    · cases hrun
      cases hlater
      rfl
    · cases hrun
      cases hlater
      rfl
  · obtain ⟨d, hrun⟩ : ∃ d, run (closingRun ++ handledRun ++ [.worker (.endHandlings false)]) single = some d :=
      ⟨_, rfl⟩
    have hfinished : d.worker.closing = .finished false := by
      cases hrun
      rfl
    have hc : ∀ id, .worker (.collapse id) ∉ closingRun ++ handledRun ++ [.worker (.endHandlings false)] := by
      simp [closingRun, handledRun]
    obtain ⟨-, -, hdone, -⟩ := (run_closes hrun).2 false hfinished
    exact ⟨d, hrun, hfinished, ((hdone rfl).2 hc).2⟩

end Deployment

end JobWorker
