import JobWorker.Proofs.Commands
import JobWorker.Proofs.Ledger.Turns
import JobWorker.Proofs.Order.Attempts
import JobWorker.Proofs.Slots

/-!
# `JobWorker.Proofs.Order` — bounded and ordered handling

A worker takes a slot before it takes a job, and the handling keeps the slot to its end. So there are never more
jobs in handling than slots, and none is taken out of the queue while every slot is occupied. With one slot the
handlings follow one another: handlers are called, and reports made, in the order in which the jobs came into the
queue.

## Contents
- **Jobs.** `Worker.run_queued`, `Worker.run_taken_lt`.
- **Reports by number.** `Outcome.commands_sublist`, `Ledger.Settled.nodup_attempts`,
  `Ledger.Settled.nodup_answers`, `Worker.run_report`.
- **One slot.** `Worker.run_inTurn`.
- **The law.** `Worker.run_order`.
-/

namespace JobWorker

/-! ## Reports by number -/

namespace Outcome

variable {config : WorkerConfig} {outs : List Outcome} {o : Outcome}

/-- An outcome calls for one command at most, under its own number. -/
theorem commands_sublist (config : WorkerConfig) (outs : List Outcome) :
    ((outs.flatMap (·.commands config)).map (·.1)).Sublist (outs.map (·.id)) := by
  induction outs with
  | nil => exact .slnil
  | cons o outs ih =>
      rw [List.flatMap_cons, List.map_append, List.map_cons]
      unfold commands
      cases o.command? config with
      | none => exact ih.cons o.id
      | some request => exact ih.cons_cons o.id

/-- The command is about its job: it completes it or marks it as failed. -/
theorem of_mem_commands {a : Nat × CommandRequest} (h : a ∈ o.commands config) :
    a.1 = o.id ∧ a.2.key = o.job.key ∧ ∀ r, a.2 ≠ .throwError r := by
  obtain ⟨request, hrequest, rfl⟩ := List.mem_map.mp h
  refine ⟨rfl, ?_⟩
  rw [Option.mem_toList, command?] at hrequest
  repeat' split at hrequest
  all_goals cases hrequest
  all_goals exact ⟨rfl, fun _ heq => nomatch heq⟩

end Outcome

namespace Ledger.Settled

open History

variable {config : WorkerConfig} {log : List Event} {L : Ledger}

/-- No handling makes a second report. -/
theorem nodup_attempts (hL : L.Settled config log) (hbalanced : L.Balanced log) :
    ((History.attempts log).map (·.1)).Nodup := by
  rw [hL.attempts]
  have hids : ((outcomes log).map (·.id)).Sublist ((outcomes log ++ L.pending).map (·.id)) :=
    (List.sublist_append_left _ _).map _
  exact (hL.distinct hbalanced).sublist ((Outcome.commands_sublist config _).trans hids)

/-- So none is answered a second time. -/
theorem nodup_answers (hL : L.Settled config log) (hbalanced : L.Balanced log) : ((answers log).map (·.1)).Nodup := by
  have hall := (hL.answered.map (·.1)).nodup_iff.mp (hL.nodup_attempts hbalanced)
  rw [List.map_append] at hall
  exact (List.nodup_append.mp hall).1

end Ledger.Settled

namespace Worker

open History

variable {config : WorkerConfig} {kind : HandlerKind} {now : Time} {actions : List Action} {w w' : Worker}

/-! ## Jobs -/

/-- Jobs leave the queue in the order in which they came in. -/
theorem run_queued (h : run actions (start config kind now) = some w) :
    let log := history actions (start config kind now)
    queued log = taken log ++ w.queue.jobs := by
  have opening : queued [] = taken [] ++ (start config kind now).ledger.queue := rfl
  have run := run_ledger start_balanced.numbered h
  exact run.preserves (P := fun log L => queued log = taken log ++ L.queue)
    (fun hL step => step.queued_eq hL) opening

/-- A job is taken by a dispatcher that looks at the queue, with a slot in hand. -/
theorem dispatcher_of_taken {action : Action} {job : Job} (hmem : .taken job ∈ events action w w') :
    w.dispatcher = .fetching .looking := by
  have hof := isOf_of_mem_events hmem
  cases action with
  | dispatch token =>
      simp only [events] at hmem
      split at hmem
      · assumption
      · cases hmem
  | _ => simp [Event.isOf] at hof

/-- No job is taken while the jobs in handling occupy every slot. -/
theorem run_taken_lt (h : run actions (start config kind now) = some w) {action : Action} {job : Job}
    (hmem : .taken job ∈ events action w w') (m : Milestone) :
    (w.ledger.awaiting m).length < max config.handlerThreads 1 := by
  have hfetching := dispatcher_of_taken hmem
  have hslots := run_slots h
  have hle : (w.ledger.awaiting m).length ≤ w.handlings.length + w.dispatcher.held.toList.length :=
    w.ledger.length_awaiting_le m
  rw [slots, hfetching] at hslots
  rw [hfetching] at hle
  -- the slot of the dispatcher is one that no handling has
  have hheld : (Dispatcher.fetching (.looking : Consumer Job)).held = none := rfl
  have hslot : (Dispatcher.fetching (.looking : Consumer Job)).slots = 1 := rfl
  rw [hheld, Option.toList_none, List.length_nil] at hle
  rw [hslot] at hslots
  omega

/-! ## One slot -/

/-- A worker with one slot has one job in handling at most. -/
theorem alone_of_slots (hslots : w.slots ≤ 1) : w.ledger.handlings.length + w.ledger.held.toList.length ≤ 1 := by
  have hheld := w.dispatcher.length_held_le
  unfold slots at hslots
  show w.handlings.length + w.dispatcher.held.toList.length ≤ 1
  omega

/-- With one slot the handlings of a worker take turns. -/
theorem run_inTurn (hone : config.handlerThreads ≤ 1) (h : run actions (start config kind now) = some w) :
    w.ledger.InTurn (movers (history actions (start config kind now))) := by
  have opening : (start config kind now).ledger.InTurn (movers []) :=
    ⟨.nil, (fun _ hmem => nomatch hmem), fun _ hmem => nomatch hmem⟩
  have hslots : (start config kind now).slots ≤ 1 := by
    show max config.handlerThreads 1 + 0 + 0 ≤ 1
    omega
  have kept := run_preserves
    (P := fun _ log w => w.ledger.Numbered ∧ w.slots ≤ 1 ∧ w.ledger.InTurn (movers log))
    (fun {_ log w action w'} hP hv => by
      obtain ⟨hn, hslots, hturn⟩ := hP
      have step := perform_step hn hv
      have halone : w.ledger.handlings.length ≤ 1 := Nat.le_trans (Nat.le_add_right _ _) (alone_of_slots hslots)
      have hslots' := (perform_cases hv).slots_eq hn
      rw [movers_append]
      exact ⟨step.numbered hn, hslots' ▸ hslots, step.inTurn hn halone hturn⟩)
    [] [] ⟨start_balanced.numbered, hslots, opening⟩ h
  exact kept.2.2

/-- What is numbered by handlings that take turns, each once, is in the order of the jobs. -/
theorem run_increasing {ids : List Nat} (hone : config.handlerThreads ≤ 1)
    (h : run actions (start config kind now) = some w)
    (hsublist : ids.Sublist (movers (history actions (start config kind now)))) (hnodup : ids.Nodup) :
    ids.Pairwise (· < ·) := by
  have hsorted : ids.Pairwise (· ≤ ·) := (run_inTurn hone h).sorted.sublist hsublist
  refine (hsorted.and hnodup).imp fun hpair => ?_
  exact Nat.lt_of_le_of_ne hpair.1 hpair.2

/-- A report is about the job that came into the queue at the place which the number of its handling says. -/
theorem run_report (h : run actions (start config kind now) = some w) {a : Nat × CommandRequest}
    (hmem : a ∈ attempts (history actions (start config kind now))) :
    ∃ job, (queued (history actions (start config kind now)))[a.1]? = some job ∧ a.2.key = job.key ∧
      ∀ r, a.2 ≠ .throwError r := by
  have hsettled := run_account h
  rw [hsettled.attempts] at hmem
  obtain ⟨o, ho, ha⟩ := List.mem_flatMap.mp hmem
  obtain ⟨hid, hkey, hreport⟩ := Outcome.of_mem_commands ha
  have htaken := List.mem_zipIdx_iff_getElem?.mp (hsettled.taken (run_balanced h) o (List.mem_append_left _ ho))
  refine ⟨o.job, ?_, hkey, hreport⟩
  have hlt := (List.getElem?_eq_some_iff.mp htaken).1
  rw [run_queued h, hid, List.getElem?_append_left hlt]
  exact htaken

/-! ## The law -/

/-- **Handling is bounded and ordered.** After every run the jobs were taken out of the queue in the order in which
they came in. Each of them has been handled, or is in handling, or was lost in a collapse, of which there is none
unless a handler breaks down while it is being made; and there are no more of them in handling than slots. No job
is taken while every slot has one. With one slot handlings do not overlap: none goes on once a later one has. Then
handlers are called in the order of their jobs, whatever they do and however long it takes, and reports are made
in this order, none a second time. The same is true of the reports that reach a gateway in memory, each of which is
about the job at its place in the order; where handlers send no commands of their own, the gateway counts just
these, and keeps them in this order, unless it was scripted to refuse them. -/
theorem run_order {config : WorkerConfig} {kind : HandlerKind} {now : Time} {actions : List Action}
    {w : Worker} (h : run actions (start config kind now) = some w) :
    let log := history actions (start config kind now)
    let slots := max config.handlerThreads 1
    queued log = taken log ++ w.queue.jobs ∧
    (passings .released log ++ w.ledger.awaiting .released ++ losses .released log).Perm (taken log).zipIdx ∧
    ((∀ id, .collapse id ∉ actions) → losses .released log = []) ∧
    (w.ledger.awaiting .released).length ≤ slots ∧
    (∀ action w' job, w.perform action = some w' → .taken job ∈ events action w w' →
      (w.ledger.awaiting .released).length < slots) ∧
    (config.handlerThreads ≤ 1 →
      (movers log).Pairwise (· ≤ ·) ∧
      passings .invoked log ++ w.ledger.awaiting .invoked = (taken log).zipIdx ∧
      ((attempts log).map (·.1)).Pairwise (· < ·) ∧
      ∀ gateway moves d, Deployment.run moves (.start config kind now gateway) = some d →
        let log := Deployment.history moves (.start config kind now gateway)
        let sent := Deployment.attempts moves (.start config kind now gateway)
        (sent.map (·.1)).Pairwise (· < ·) ∧
        (∀ a ∈ sent, ∃ job, (queued log)[a.1]? = some job ∧ a.2.key = job.key ∧ ∀ r, a.2 ≠ .throwError r) ∧
        ((∀ request, .command request ∉ moves) → Gateway.Kept (sent.map (·.2)) gateway d.gateway)) := by
  intro log slots
  have hbalanced := run_balanced h
  refine ⟨run_queued h, hbalanced.once .released, fun hc => losses_history _ hc _,
    run_awaiting_le .released h, fun action w' job _ hmem => run_taken_lt h hmem .released, fun hone => ?_⟩
  have hslots : w.slots ≤ 1 := by
    rw [run_slots h]
    omega
  have hturn := run_inTurn hone h
  refine ⟨hturn.sorted, hturn.passings_eq hbalanced (alone_of_slots hslots) (losses_invoked log),
    run_increasing hone h attempts_sublist_movers ((run_account h).nodup_attempts hbalanced), ?_⟩
  intro gateway moves d hrun dlog sent
  obtain ⟨actions', hactions', hhistory⟩ := Deployment.run_worker hrun
  have hw : run actions' (start config kind now) = some d.worker := hactions'
  have hlog : history actions' (start config kind now) = dlog := hhistory
  have hsent : sent = answers (history actions' (start config kind now)) := by
    rw [hlog]
    exact Deployment.attempts_eq_answers hrun
  have hsettled := run_account hw
  refine ⟨?_, fun a hmem => ?_, Deployment.run_kept hrun⟩
  · rw [hsent]
    exact run_increasing hone hw answers_sublist_movers (hsettled.nodup_answers (run_balanced hw))
  · -- what was answered was made
    rw [hsent] at hmem
    rw [← hlog]
    exact run_report hw (hsettled.answered.symm.subset (List.mem_append_left _ hmem))

/-- Two jobs come in and are handled in turn, with a gateway that refuses the first command. -/
def refusedRun : List Move :=
  let poll := .worker (.poll true true)
  let call := .call true true
  [.push [{ key := 1 }, { key := 2, retries := 3 }], .failCommands .unavailable 1, poll, poll, poll, call, call,
    call, call, call, call, poll, poll, poll, poll, poll, poll, poll] ++ (begun 0).map .worker ++
  [.worker (.finish 0 (.ok ())), .worker (.handle 0), .report 0, .worker (.handle 0), .worker (.handle 0),
    .worker (.retire 0)] ++ (begun 1).map .worker ++
  [.worker (.finish 1 (.error .panicked)), .worker (.handle 1), .report 1]

/-- The report on the second job is tried after that on the first, and it alone is kept. In a run of three jobs
the steps of the three handlings follow one another. -/
theorem order_of_one_slot :
    (∃ w, run inTurn (start (completing 1) .async 0) = some w ∧
      (movers (history inTurn (start (completing 1) .async 0))).Pairwise (· ≤ ·) ∧
      (taken (history inTurn (start (completing 1) .async 0))).map (·.key) = [1, 2, 3]) ∧
    ∃ d, Deployment.run refusedRun (.start (completing 1) .async 0 {}) = some d ∧
      ((Deployment.attempts refusedRun (.start (completing 1) .async 0 {})).map (·.1)).Pairwise (· < ·) ∧
      (Deployment.attempts refusedRun (.start (completing 1) .async 0 {})).map (·.2.key) = [1, 2] ∧
      d.gateway.commandAttempts =
        (Deployment.attempts refusedRun (.start (completing 1) .async 0 {})).length ∧
      d.gateway.completed = [] ∧ d.gateway.failed.map (·.key) = [2] := by
  obtain ⟨w, hrun⟩ : ∃ w, run inTurn (start (completing 1) .async 0) = some w := ⟨_, rfl⟩
  obtain ⟨d, hmoves⟩ : ∃ d, Deployment.run refusedRun (.start (completing 1) .async 0 {}) = some d := ⟨_, rfl⟩
  have horder := (run_order hrun).2.2.2.2.2 (Nat.le_refl 1)
  have hsent := horder.2.2.2 {} refusedRun d hmoves
  have hcount := (hsent.2.2 (by simp [refusedRun, begun])).count
  rw [List.length_map] at hcount
  refine ⟨⟨w, hrun, horder.1, rfl⟩, d, hmoves, hsent.1, rfl, hcount.trans (Nat.zero_add _), ?_⟩
  cases hmoves
  exact ⟨rfl, rfl⟩

end Worker

end JobWorker
