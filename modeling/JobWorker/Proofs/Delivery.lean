import JobWorker.Proofs.Delivery.OpenCall
import JobWorker.Proofs.History.Deployment
import JobWorker.Proofs.Ledger.Balance

/-!
# `JobWorker.Proofs.Delivery` — every scripted job reaches its handler once

A job that is scripted at a gateway in memory passes the gateway, the link, the poller, the queue and the
dispatcher before its handler is called. The way falls into two halves: up to the response that the poller
receives a supply accounts for the job, and from there on the ledger of the worker does. What has to be shown
here is that a deployment moves its supply by steps of `Supply.Step` and nothing else, for which link and
poller have to agree about the call that is open.

## Contents
- **Agreement.** `Deployment.Linked`.
- **Moves.** `Deployment.Moves`, `call_moves`, `own_moves`, `perform_supply`.
- **Runs.** `Deployment.run_accounted`.
- **Delivery.** `Deployment.run_delivers`.
-/

namespace JobWorker

/-! ## The deployment -/

namespace Deployment

variable {name : String} {d d' : Deployment}

/-- Link and poller of a deployment agree about the open call, and about the name of the worker. -/
structure Linked (name : String) (d : Deployment) : Prop where
  fits : d.link.Fits name d.worker.poller.call?
  requester : d.worker.poller.request.worker = name

/-- Nothing happens to the supply where neither gateway nor link do anything, unless the poller stops. -/
theorem supply_idle (hgateway : d'.gateway.batches = d.gateway.batches)
    (hlink : d'.link.batches = d.link.batches) (hcancelled : d'.worker.cancelled = d.worker.cancelled)
    (hrunning : d.worker.poller.isStopped = false)
    (hstop : d'.worker.poller.isStopped = true → d.link.batches = []) :
    Supply.Step name d.supply [] [] [] d'.supply := by
  cases hstopped : d'.worker.poller.isStopped with
  | false =>
      have hsame : d'.supply = d.supply := by
        simp only [supply, hgateway, hlink, hcancelled, hstopped, hrunning]
      rw [hsame]
      exact .quiet
  | true =>
      have hsame : d'.supply = { d.supply with stopped := true } := by
        simp only [supply, hgateway, hlink, hcancelled, hstopped]
      rw [hsame]
      exact .stop hrunning (hstop hstopped)

/-- What a move comes down to: link and poller still agree, and the supply has made a step, in which `added`
is scripted and what the events in `log` receive is received. -/
def Moves (name : String) (d : Deployment) (added : List Batch) (log : List Event) (d' : Deployment) : Prop :=
  d'.Linked name ∧ ∃ lost, Supply.Step name d.supply added (History.received log) lost d'.supply

section Call

variable {call : Activation} {event : CallEvent}

theorem running_of_calling (hphase : d.worker.poller.phase = .calling call) :
    d.worker.poller.isStopped = false := by
  simp only [Poller.isStopped, hphase]

/-- The events of what the gateway says without a response: none. -/
theorem events_eq_nil {result : Except ClientError Nat} {w w' : Worker}
    (hphase : w.poller.phase = .calling call) (hover : call.on event = (.finished result, none)) :
    Worker.events (.gateway event) w w' = [] := by
  cases event with
  | response batch =>
      simp only [Worker.events, hphase]
      cases call with
      | reading n => cases hover
      | opening | finished _ => rfl
  | _ => rfl

/-- When a call is over, with nothing left on the link, nothing happens to the supply. -/
theorem over_moves {result : Except ClientError Nat} (hd : d.Linked name)
    (hphase : d.worker.poller.phase = .calling call) (hover : call.on event = (.finished result, none))
    (hworker : d.worker.perform (.gateway event) = some d'.worker)
    (hgateway : d'.gateway = d.gateway) (hlink : d'.link = .idle) (hnone : d.link.batches = []) :
    Moves name d [] (Worker.events (.gateway event) d.worker d'.worker) d' := by
  obtain ⟨poller, hpoller, hw, -⟩ := Worker.perform_gateway hworker
  simp only [Poller.receive, hphase, hover, Poller.follow, Option.some.injEq] at hpoller
  have hcall : d'.worker.poller.call? = none := by
    rw [hw, ← hpoller]
    show Poller.call? { d.worker.poller with phase := d.worker.poller.conclude d.worker.now result } = none
    unfold Poller.conclude
    repeat' split
    all_goals rfl
  refine ⟨⟨?_, ?_⟩, [], ?_⟩
  · rw [hlink, hcall]; trivial
  · rw [hw, ← hpoller]; exact hd.requester
  · rw [events_eq_nil hphase hover]
    refine supply_idle (congrArg _ hgateway) ?_ (by rw [hw]) (running_of_calling hphase) fun _ => hnone
    rw [hlink, hnone]
    rfl

/-- When the token cuts a call off, what is on the link is lost and the poller stops. -/
theorem cut_moves (hd : d.Linked name) (hphase : d.worker.poller.phase = .calling call)
    (hworker : d.worker.perform (.gateway .cancelled) = some d'.worker)
    (hgateway : d'.gateway = d.gateway) (hlink : d'.link = .idle) :
    Moves name d [] (Worker.events (.gateway .cancelled) d.worker d'.worker) d' := by
  obtain ⟨poller, hpoller, hw, hcancelled⟩ := Worker.perform_gateway hworker
  have hover : call.on .cancelled = (.finished (.error .cancelled), none) := by
    have hfits := hd.fits
    simp only [Poller.call?, hphase] at hfits
    cases call with
    | finished result => cases hl : d.link <;> (rw [hl] at hfits; exact hfits.elim)
    | opening | reading n => rfl
  simp only [Poller.receive, hphase, hover, Poller.follow, Poller.conclude, Option.some.injEq] at hpoller
  refine ⟨⟨?_, ?_⟩, d.link.batches.flatten, ?_⟩
  · rw [hlink, hw, ← hpoller]; trivial
  · rw [hw, ← hpoller]; exact hd.requester
  · have hsame : d'.supply = { d.supply with onLink := [], stopped := true } := by
      simp only [supply, hw, ← hpoller, hgateway, hlink]
      rfl
    rw [hsame]
    exact .lose (running_of_calling hphase) (hcancelled rfl)

/-- The events of what the gateway says, if it says something. -/
def heard (event : Option CallEvent) (w w' : Worker) : List Event :=
  match event with
  | none       => []
  | some event => Worker.events (.gateway event) w w'

/-- As long as the worker hears nothing, what counts is what happens on the link. -/
theorem silent_moves (hd : d.Linked name) (hworker : Hears none d.worker d'.worker)
    (hfits : d'.link.Fits name d.worker.poller.call?)
    (hsupply : Supply.Step name d.supply [] [] [] d'.supply) :
    Moves name d [] (heard none d.worker d'.worker) d' := by
  have hsame : d'.worker = d.worker := hworker
  refine ⟨⟨?_, ?_⟩, [], hsupply⟩
  · rw [hsame]; exact hfits
  · rw [hsame]; exact hd.requester

/-- When the call has been opened, the responses are on the link, where they were. -/
theorem answer_moves {responses : List Batch} (hd : d.Linked name)
    (hphase : d.worker.poller.phase = .calling .opening)
    (hworker : d.worker.perform (.gateway .opened) = some d'.worker) (hgateway : d'.gateway = d.gateway)
    (hlink : d'.link = .streaming responses) (hbatches : d.link.batches = responses) :
    Moves name d [] (heard (some .opened) d.worker d'.worker) d' := by
  obtain ⟨poller, hpoller, hw, -⟩ := Worker.perform_gateway hworker
  simp only [Poller.receive, hphase, Activation.on, Poller.follow, Option.some.injEq] at hpoller
  refine ⟨⟨?_, ?_⟩, [], ?_⟩
  · rw [hlink, hw, ← hpoller]; trivial
  · rw [hw, ← hpoller]; exact hd.requester
  · refine supply_idle (congrArg _ hgateway) ?_ (by rw [hw]) (running_of_calling hphase) fun hstopped => ?_
    · rw [hlink, hbatches]; rfl
    · rw [hw, ← hpoller] at hstopped
      cases hstopped

/-- A response leaves the link and is received. -/
theorem respond_moves {n : Nat} {batch : Batch} {rest : List Batch} (hd : d.Linked name)
    (hphase : d.worker.poller.phase = .calling (.reading n))
    (hworker : d.worker.perform (.gateway (.response batch)) = some d'.worker)
    (hgateway : d'.gateway = d.gateway) (hlink : d.link = .streaming (batch :: rest))
    (hlink' : d'.link = .streaming rest) :
    Moves name d [] (heard (some (.response batch)) d.worker d'.worker) d' := by
  obtain ⟨poller, hpoller, hw, -⟩ := Worker.perform_gateway hworker
  simp only [Poller.receive, hphase, Activation.on, Option.some.injEq] at hpoller
  have hrunning := running_of_calling hphase
  have hreceived : History.received (heard (some (.response batch)) d.worker d'.worker) = batch := by
    simp only [heard, Worker.events, hphase, History.received, List.flatMap_singleton]
  have hsupply : d'.supply = { d.supply with onLink := rest } := by
    simp only [supply, hw, ← hpoller, hgateway, hlink', hrunning]
    rfl
  refine ⟨⟨?_, ?_⟩, [], ?_⟩
  · rw [hlink', hw, ← hpoller]; trivial
  · rw [hw, ← hpoller]; exact hd.requester
  · rw [hreceived, hsupply]
    exact .receive hrunning (by simp only [supply, hlink, Link.batches])

/-- **A step of the open call** moves the supply by one step. -/
theorem call_moves {token timer : Bool} (hd : d.Linked name) (h : d.call token timer = some d') :
    Moves name d [] (events (.call token timer) d d') d' := by
  obtain ⟨call, event, hphase, hstep, hworker⟩ := call_cases h
  have hevents : events (.call token timer) d d' = heard event d.worker d'.worker := by
    simp only [events, action?, hstep]
    cases event <;> rfl
  have hrunning := running_of_calling hphase
  -- what the call of the poller can be is settled by the link, and so is what it makes of the event
  have hcall : d.worker.poller.call? = some call := by simp only [Poller.call?, hphase]
  have hfits := hd.fits
  rw [hcall] at hfits
  rw [hevents]
  have hstep := Link.step_cases hstep
  generalize hlink : d.link = link at hstep hfits
  generalize hlink' : d'.link = link' at hstep
  generalize hgateway : d'.gateway = gateway at hstep
  cases hstep with
  | begin =>
      have hopening : call = .opening := hfits.call_of_idle
      refine silent_moves hd hworker ?_ ?_
      · rw [hlink', hcall, hopening]
        exact hd.requester
      · refine supply_idle (congrArg _ hgateway) ?_ ?_ hrunning fun _ => by rw [hlink]; rfl
        · rw [hlink', hlink]; rfl
        · rw [show d'.worker = d.worker from hworker]
  | cut hcancelled => exact cut_moves hd hphase hworker hgateway hlink'
  | @goOn c c' g' hcalled =>
      obtain ⟨hopening, hrequester⟩ := hfits.call_of_opening
      obtain ⟨hrequest, hsupply⟩ := c.step_supply d.worker.cancelled hcalled
      refine silent_moves hd hworker ?_ ?_
      · rw [hlink', hcall, hopening]
        show c'.request.worker = name
        rw [hrequest, hrequester]
      · have hsame : d'.worker = d.worker := hworker
        rw [hrequester] at hsupply
        simpa only [supply, hsame, hlink, hlink', hgateway, hrunning] using hsupply
  | @answer c responses hanswered =>
      obtain ⟨hopening, -⟩ := hfits.call_of_opening
      refine answer_moves hd (hopening ▸ hphase) hworker hgateway hlink' ?_
      rw [hlink, Link.batches, hanswered]
  | @refuse c e hanswered =>
      obtain ⟨hopening, -⟩ := hfits.call_of_opening
      refine over_moves hd (hopening ▸ hphase) rfl hworker hgateway hlink' ?_
      rw [hlink, Link.batches, hanswered]
  | finish =>
      obtain ⟨n, hreading⟩ := hfits.call_of_streaming
      exact over_moves hd (hreading ▸ hphase) rfl hworker hgateway hlink' (by rw [hlink]; rfl)
  | respond =>
      obtain ⟨n, hreading⟩ := hfits.call_of_streaming
      exact respond_moves hd (hreading ▸ hphase) hworker hgateway hlink hlink'

end Call

section Own

variable {action : Action} {w w' : Worker}

/-- Without the gateway the poller goes on by itself, or it stays as it is, and the token may fire. -/
theorem perform_own (hown : ∀ event, action ≠ .gateway event) (h : w.perform action = some w') :
    w.poller.OwnStep w'.poller ∧ w'.cancelled = w.cancelled ∨
      w'.poller = w.poller ∧ (w'.cancelled = w.cancelled ∨ w'.cancelled = true) := by
  have frame := Worker.perform_frame h
  cases action with
  | gateway event => exact absurd rfl (hown event)
  | poll token timer =>
      obtain ⟨⟨q, p⟩, hstep, rfl⟩ := Option.map_eq_some_iff.mp h
      exact .inl ⟨.step _ _ _ _ _ _ hstep, rfl⟩
  | pollAgain =>
      obtain ⟨p, hagain, rfl⟩ := Option.map_eq_some_iff.mp h
      exact .inl ⟨.again hagain, rfl⟩
  | _ => exact .inr ⟨frame.poller rfl, frame.cancelled.imp_right And.right⟩

/-- Only the gateway brings jobs. -/
theorem received_events (hown : ∀ event, action ≠ .gateway event) :
    History.received (Worker.events action w w') = [] := by
  unfold History.received
  rw [List.flatMap_eq_nil_iff]
  intro event hmem
  have hof := Worker.isOf_of_mem_events hmem
  cases event with
  | received batch => cases action <;> first | exact absurd rfl (hown _) | cases hof
  | _ => rfl

/-- **An action of the worker itself** moves the supply by one step. -/
theorem own_moves (hd : d.Linked name) (hown : ∀ event, action ≠ .gateway event)
    (h : d.worker.perform action = some d'.worker) (hgateway : d'.gateway.batches = d.gateway.batches)
    (hlink : d'.link = d.link) : Moves name d [] (Worker.events action d.worker d'.worker) d' := by
  have hbatches : d'.link.batches = d.link.batches := by rw [hlink]
  -- either it is the poller's turn, or at most the token fires
  rcases perform_own hown h with ⟨hpoller, hcancelled⟩ | ⟨hpoller, hcancelled⟩
  · obtain ⟨hfits, hworker⟩ := hpoller.fits hd.fits
    refine ⟨⟨hlink ▸ hfits, hworker.trans hd.requester⟩, [], ?_⟩
    rw [received_events hown]
    refine supply_idle hgateway hbatches hcancelled hpoller.not_stopped fun hstopped => ?_
    rw [Poller.call?_of_isStopped hstopped] at hfits
    exact hfits.batches_eq_nil
  · refine ⟨⟨?_, ?_⟩, [], ?_⟩
    · rw [hlink, hpoller]; exact hd.fits
    · rw [hpoller]; exact hd.requester
    · rw [received_events hown]
      rcases hcancelled with hcancelled | hcancelled
      · have hsame : d'.supply = d.supply := by
          simp only [supply, hgateway, hbatches, hpoller, hcancelled]
        exact hsame ▸ .quiet
      · have hsame : d'.supply = { d.supply with cancelled := true } := by
          simp only [supply, hgateway, hbatches, hpoller, hcancelled]
        exact hsame ▸ .cancel

end Own

/-- **Every move is a step of the supply.** -/
theorem perform_supply {move : Move} (hd : d.Linked name) (h : d.perform move = some d') :
    Moves name d move.script (events move d d') d' := by
  cases move with
  | worker action =>
      simp only [perform, act] at h
      split at h
      · cases h
      · cases h
      · rename_i hgateway _
        obtain ⟨worker, hworker, rfl⟩ := Option.map_eq_some_iff.mp h
        exact own_moves hd hgateway hworker rfl rfl
  | call token timer => exact call_moves hd h
  | report id =>
      simp only [perform, report] at h
      obtain ⟨hh, -, h⟩ := Option.bind_eq_some_iff.mp h
      split at h
      · rename_i request _
        obtain ⟨worker, hworker, h⟩ := Option.bind_eq_some_iff.mp h
        cases h
        have hown : ∀ event, Action.answer id ≠ .gateway event := by
          intro event heq
          cases heq
        exact own_moves hd hown hworker (d.gateway.attempt_batches request) rfl
      · cases h
  | command request =>
      cases h
      have hsame : supply { d with gateway := (d.gateway.attempt request).1 } = d.supply := by
        simp only [supply, Gateway.attempt_batches]
      exact ⟨⟨hd.fits, hd.requester⟩, [], hsame ▸ .quiet⟩
  | push batch => cases h; exact ⟨⟨hd.fits, hd.requester⟩, [], .script batch⟩
  | failActivations status times | failCommands status times =>
      cases h
      exact ⟨⟨hd.fits, hd.requester⟩, [], .quiet⟩

/-- So every run of a deployment keeps the account of its supply. -/
theorem run_accounted {moves : List Move} {script : List Batch} {log : List Event} {lost : List WireJob}
    (hd : d.Linked name) (hS : d.supply.Accounted name script (History.received log) lost)
    (h : d.run moves = some d') : ∃ lost, d'.supply.Accounted name (script ++ moves.flatMap Move.script)
      (History.received (log ++ history moves d)) lost := by
  induction moves generalizing d script log lost with
  | nil =>
      cases h
      refine ⟨lost, ?_⟩
      rw [List.flatMap_nil, List.append_nil, history, List.append_nil]
      exact hS
  | cons move moves ih =>
      obtain ⟨v, hv, h⟩ := Option.bind_eq_some_iff.mp h
      obtain ⟨hlinked, lost', hstep⟩ := perform_supply hd hv
      have hfirst := hstep.accounted hS
      rw [← History.received_append] at hfirst
      obtain ⟨lost'', hlast⟩ := ih hlinked hfirst h
      refine ⟨lost'', ?_⟩
      rw [List.flatMap_cons, ← List.append_assoc, history, hv]
      show d'.supply.Accounted name _ (History.received (log ++ (events move d v ++ history moves v))) lost''
      rw [← List.append_assoc]
      exact hlast

end Deployment

/-! ## Delivery -/

/-- A job as the worker of this name gets it. -/
def Job.handedTo (name : String) (job : Job) : Job := { job with worker := name }

/-- Whether a job converts does not depend on who gets it. -/
theorem Job.ofBatch_handTo (name : String) (batch : Batch) :
    Job.ofBatch (handTo name batch) = (Job.ofBatch batch).map (Job.handedTo name) := by
  have hwire : ∀ wire : WireJob, (Job.ofWire { wire with worker := name }).toOption =
      (Job.ofWire wire).toOption.map (Job.handedTo name) := by
    intro wire
    simp only [Job.ofWire]
    cases readObject "variables" wire.vars with
    | error e => rfl
    | ok members =>
        cases readObject "customHeaders" wire.customHeaders with
        | error e => rfl
        | ok headers => cases Timestamp.ofMillis? wire.deadline <;> rfl
  rw [Job.ofBatch, handTo, List.filterMap_map, Job.ofBatch, List.map_filterMap]
  exact congrArg (List.filterMap · batch) (funext hwire)

theorem Job.ofBatch_flatten_handTo (name : String) (batches : List Batch) :
    Job.ofBatch (batches.map (handTo name)).flatten =
      (Job.ofBatch batches.flatten).map (Job.handedTo name) := by
  rw [← Job.ofBatch_handTo, handTo, List.map_flatten]
  rfl

/-- At the opening of a worker everything is pending. -/
theorem Deployment.start_accounted {config : WorkerConfig} {kind : HandlerKind} {now : Time}
    {gateway : Gateway} : (start config kind now gateway).supply.Accounted config.workerName
      gateway.batches (History.received []) [] where
  whole := rfl
  single := Nat.zero_le 1
  linkPieces _ hmem := nomatch hmem
  pendingPieces batch hmem := .inr ⟨batch, hmem, List.infix_refl _⟩
  lostPiece := .nil
  excuse := .inl rfl

open History in
/-- **Every job that is scripted is handed to its handler once,** in the order of the script. After every run
of a deployment the jobs that were taken out of the queue, those in the queue, those that the poller has
received and not yet pushed, and those that are pending at the gateway are together the scripted jobs that
convert, in order. Nothing is lost as long as the token has not fired; when it cuts a call off, what may be
missing are jobs that stand together in one scripted batch, after which the poller has stopped. Each job that
was taken is handed to one call of the handler, or has yet to be. -/
theorem Deployment.run_delivers {config : WorkerConfig} {kind : HandlerKind} {now : Time} {gateway : Gateway}
    {moves : List Move} {d : Deployment} (h : run moves (start config kind now gateway) = some d) :
    let log := history moves (start config kind now gateway)
    let script := gateway.batches ++ moves.flatMap Move.script
    (∃ lost : Batch,
      taken log ++ d.worker.queue.jobs ++
        (d.worker.poller.entering.toList ++ d.worker.poller.due ++ Job.ofBatch d.link.batches.flatten) ++
        Job.ofBatch lost ++ (Job.ofBatch d.gateway.batches.flatten).map (Job.handedTo config.workerName) =
          (Job.ofBatch script.flatten).map (Job.handedTo config.workerName) ∧
      (d.worker.cancelled = false → lost = []) ∧
      (lost = [] ∨ d.worker.poller.isStopped = true ∧
        ∃ batch ∈ script, lost <:+: handTo config.workerName batch)) ∧
    (passings .invoked log ++ d.worker.ledger.awaiting .invoked).Perm (taken log).zipIdx := by
  intro log script
  obtain ⟨actions, hactions, hhistory⟩ := run_worker h
  have hw : d.worker.ledger.Balanced (Worker.history actions (start config kind now gateway).worker) :=
    Worker.run_balanced hactions
  rw [hhistory] at hw
  have hlinked : (start config kind now gateway).Linked config.workerName := ⟨trivial, rfl⟩
  obtain ⟨lost, hS⟩ := run_accounted hlinked start_accounted h
  rw [List.nil_append] at hS
  refine ⟨⟨lost, ?_, fun hrunning => ?_, ?_⟩, ?_⟩
  · -- up to the poller by the supply, from there on by the ledger
    have hwhole := congrArg Job.ofBatch hS.whole
    rw [Job.ofBatch_flatten_handTo, Job.ofBatch_append, Job.ofBatch_append, Job.ofBatch_append,
      Job.ofBatch_flatten_handTo, hw.received, hw.counted] at hwhole
    rw [hwhole]
    simp only [List.append_assoc]
    rfl
  · rcases hS.excuse with hlost | ⟨-, hcancelled⟩
    · exact hlost
    · have hcancelled : d.worker.cancelled = true := hcancelled
      rw [hrunning] at hcancelled
      cases hcancelled
  · rcases hS.excuse with hlost | ⟨hstopped, -⟩
    · exact .inl hlost
    · exact hS.lostPiece.imp_right fun hpiece => ⟨hstopped, hpiece⟩
  · have honce := hw.once .invoked
    rwa [losses_invoked, List.append_nil] at honce

/-- A worker with room for two jobs, at a gateway that serves nothing yet. -/
def Deployment.small : Deployment :=
  start { jobType := "foo", workerName := "worker", maxJobsActive := 2 } .async 0 {}

/-- A batch of three is scripted, of which the second does not convert, and a failure before it. The first
call fails, the second brings the first two jobs, and the third is cut off with the last one on the link. -/
def Deployment.cutOffRun : List Move :=
  let poll := .worker (.poll true true)
  let call := .call true true
  let dispatch := .worker (.dispatch false)
  [.push [{ key := 1 }, { key := 2, deadline := 9000000000000000 }, { key := 3 }],
    .failActivations .unavailable 1, poll, poll, poll, call, call, call, .worker (.pass 1000000000), poll,
    .worker .pollAgain, poll, poll, poll, call, call, call, call, call, call, poll, poll, poll, poll, call,
    dispatch, dispatch, dispatch, dispatch, dispatch, .worker (.handle 0), .worker (.handle 0),
    .worker .pollAgain, poll, poll, poll, call, call, call, call, .worker .cancel, call]

open History in
/-- The first job reaches its handler; the third is what is missing. -/
theorem Deployment.delivers_until_cut_off :
    ∃ d, run cutOffRun small = some d ∧ (taken (history cutOffRun small)).map (·.key) = [1] ∧
      d.worker.cancelled = true ∧
      (passings .invoked (history cutOffRun small) ++ d.worker.ledger.awaiting .invoked).Perm
        (taken (history cutOffRun small)).zipIdx := by
  obtain ⟨d, hrun⟩ : ∃ d, run cutOffRun small = some d := ⟨_, rfl⟩
  have hdelivers := run_delivers hrun
  refine ⟨d, hrun, rfl, ?_, hdelivers.2⟩
  cases hrun
  rfl

end JobWorker
