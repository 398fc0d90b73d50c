import JobWorker.Proofs.Ledger.LateUse
import JobWorker.Proofs.Step

/-!
# `JobWorker.Proofs.Commands` — the commands of a worker are a function of its outcomes

Handlings go on side by side, share one gateway, and are answered in any order, if at all. None of this can be seen in
the commands that the worker itself sends. Each handling that looks finds an outcome that calls for one command or for
none, by what its own handler came back with and by whether its own client had been used, and what is sent is what was
called for, once. So two runs with the same outcomes send the same commands, however they were scheduled.

An outcome is not settled when the handler comes back. Whether a late use comes before the look is a matter of the
schedule, and where one does the job is not completed although no command had been made when its handler came back. It
is the only way in which an outcome changes, and where there is none the commands are a function of what the handlers
left.

## Contents
- **Outcomes.** `Outcome.essence`, `Outcome.perm_commands`, `Outcome.filter_commands`.
- **The law.** `Worker.run_punctual`, `Worker.run_commands`.
- **Runs.** `Worker.inTurn` and `Worker.overtaking`; `Worker.usedBeforeLook` and `Worker.usedAfterLook`.
-/

namespace JobWorker

/-! ## Outcomes -/

namespace Outcome

variable {config config' : WorkerConfig}

/-- What an outcome says about a job, without the number of its handling. -/
def essence (o : Outcome) : Job × Bool × HandlerResult := (o.job, o.used, o.result)

/-- What an outcome calls for does not depend on the number of the handling, nor on any other setting than the
three that occur in a report. -/
theorem command?_congr {o o' : Outcome} (hname : config'.workerName = config.workerName)
    (htype : config'.jobType = config.jobType) (hauto : config'.autoCompletion = config.autoCompletion)
    (h : o'.essence = o.essence) : o'.command? config' = o.command? config := by
  obtain ⟨hjob, hused, hresult⟩ : o'.job = o.job ∧ o'.used = o.used ∧ o'.result = o.result := by
    simpa [essence] using h
  unfold command?
  rw [hjob, hused, hresult, hname, htype, hauto]

/-- The commands that an outcome calls for, from what it says about the job. -/
def calledFor (config : WorkerConfig) (x : Job × Bool × HandlerResult) : List CommandRequest :=
  (command? config ⟨0, x.1, x.2.1, x.2.2⟩).toList

theorem calledFor_essence (hname : config'.workerName = config.workerName)
    (htype : config'.jobType = config.jobType) (hauto : config'.autoCompletion = config.autoCompletion)
    (o : Outcome) : (o.commands config').map (·.2) = calledFor config o.essence := by
  have hsame : o.command? config' = command? config ⟨0, o.job, o.used, o.result⟩ :=
    command?_congr hname htype hauto rfl
  rw [commands, List.map_map, hsame]
  exact List.map_id _

/-- The same outcomes in another order, under other numbers and other settings, call for the same commands. -/
theorem perm_commands {outs outs' : List Outcome} (hname : config'.workerName = config.workerName)
    (htype : config'.jobType = config.jobType) (hauto : config'.autoCompletion = config.autoCompletion)
    (h : (outs'.map essence).Perm (outs.map essence)) :
    ((outs'.flatMap (·.commands config')).map (·.2)).Perm
      ((outs.flatMap (·.commands config)).map (·.2)) := by
  have hessence : ∀ outs : List Outcome, (outs.flatMap fun o => calledFor config o.essence) =
      (outs.map essence).flatMap (calledFor config) := fun outs => (List.flatMap_map ..).symm
  simp only [List.map_flatMap, calledFor_essence hname htype hauto, calledFor_essence rfl rfl rfl]
  rw [hessence, hessence]
  exact h.flatMap_right _

/-- The commands of one handling among all of them. -/
theorem filter_commands {outs : List Outcome} {o : Outcome} (hdistinct : (outs.map (·.id)).Nodup)
    (hmem : o ∈ outs) : (outs.flatMap (·.commands config)).filter (·.1 == o.id) = o.commands config := by
  -- a command bears the number of its outcome
  have hown : ∀ o' : Outcome, (o'.commands config).filter (·.1 == o.id) =
      if o'.id = o.id then o'.commands config else [] := by
    intro o'
    unfold commands
    cases o'.command? config with
    | none => split <;> rfl
    | some request => by_cases hid : o'.id = o.id <;> simp [hid]
  obtain ⟨front, back, rfl⟩ := List.append_of_mem hmem
  rw [List.map_append, List.map_cons, List.nodup_append] at hdistinct
  obtain ⟨-, hback, hfront⟩ := hdistinct
  have others : ∀ l : List Outcome, (∀ o' ∈ l, o'.id ≠ o.id) →
      l.flatMap (fun o' => if o'.id = o.id then o'.commands config else []) = [] := by
    intro l hl
    rw [List.flatMap_eq_nil_iff]
    intro o' ho'
    exact if_neg (hl o' ho')
  simp only [List.filter_flatMap, hown]
  rw [List.flatMap_append, List.flatMap_cons, if_pos rfl, others front, others back, List.nil_append,
    List.append_nil]
  · intro o' ho' heq
    exact (List.nodup_cons.mp hback).1 (heq ▸ List.mem_map_of_mem ho')
  · intro o' ho' heq
    exact hfront o'.id (List.mem_map_of_mem ho') o.id List.mem_cons_self heq

end Outcome

namespace History

/-- The reports of one handling among all of them. -/
theorem reports_eq_filter (id : Nat) (log : List Event) :
    reports id log = ((attempts log).filter (·.1 == id)).map (·.2) := by
  induction log with
  | nil => rfl
  | cons event log ih =>
      rw [← List.singleton_append, reports_append, attempts_append, List.filter_append, List.map_append, ih]
      congr 1
      cases event with
      | advanced i job before after =>
          cases after with
          | reporting request => by_cases hid : i = id <;> simp [reports, attempts, hid]
          | _ => rfl
      | _ => rfl

end History

/-! ## The law -/

section Law

open History

variable {config : WorkerConfig} {kind : HandlerKind} {now : Time} {actions : List Action} {w : Worker}

/-- Where no client is used late, the commands are what the handlers left calls for. -/
theorem Worker.run_punctual (h : run actions (start config kind now) = some w)
    (hlate : lateUses (history actions (start config kind now)) = []) :
    (attempts (history actions (start config kind now)) ++ w.ledger.attemptsDue config).Perm
      ((returns (history actions (start config kind now))).flatMap (·.commands config)) := by
  have hsame := (run_followed h).same
  rw [hlate, Outcome.map_withUses_of_notMem fun _ _ => List.not_mem_nil] at hsame
  rw [(run_account h).commands]
  exact hsame.flatMap_right _

/-- **The commands of a worker are a function of its outcomes.** After every run the reports that were made are what the
outcomes call for that the handlings found when they looked, in this order, each under the number of its handling. No
handling finds a second outcome; its number is the place of its job among those that were taken, and what was reported
of it is what its outcome calls for: one command or none, and no command a second time. There is an outcome of each job
that was counted as handled.

The outcomes that were found, and those that are still to be found, are those that the handlers left when they came
back, except that a client counts as used as well if it was used late. So where there are no late uses, the reports
that were made, and those still to be made, are what the handlers left calls for.

And two runs with the same outcomes report the same, whatever else is different about them: the number of slots, the
order of steps, the answers of the gateway, and all settings that do not occur in a report. So do two runs without late
uses in which the same handlers came back with the same results, once all reports have been made. -/
theorem Worker.run_commands (h : run actions (start config kind now) = some w) :
    let log := history actions (start config kind now)
    attempts log = (outcomes log).flatMap (·.commands config) ∧
    ((outcomes log).map (·.id)).Nodup ∧
    (∀ o ∈ outcomes log, (taken log)[o.id]? = some o.job ∧ reports o.id log = (o.command? config).toList) ∧
    (∀ x ∈ passings .discounted log, ∃ o ∈ outcomes log, (o.job, o.id) = x) ∧
    (outcomes log ++ w.ledger.pending).Perm ((returns log).map (·.withUses (lateUses log))) ∧
    (lateUses log = [] →
      (attempts log ++ w.ledger.attemptsDue config).Perm ((returns log).flatMap (·.commands config))) ∧
    ∀ (config' : WorkerConfig) (kind' : HandlerKind) (now' : Time) (actions' : List Action) (w' : Worker),
      let log' := history actions' (start config' kind' now')
      run actions' (start config' kind' now') = some w' →
      config'.workerName = config.workerName → config'.jobType = config.jobType →
      config'.autoCompletion = config.autoCompletion →
      (((outcomes log').map Outcome.essence).Perm ((outcomes log).map Outcome.essence) →
        ((attempts log').map (·.2)).Perm ((attempts log).map (·.2))) ∧
      (lateUses log = [] → lateUses log' = [] →
        w.ledger.attemptsDue config = [] → w'.ledger.attemptsDue config' = [] →
        ((returns log').map Outcome.essence).Perm ((returns log).map Outcome.essence) →
        ((attempts log').map (·.2)).Perm ((attempts log).map (·.2))) := by
  intro log
  have hbalanced := run_balanced h
  have hsettled := run_account h
  have hdistinct : ((outcomes log).map (·.id)).Nodup :=
    (hsettled.distinct hbalanced).sublist ((List.sublist_append_left _ _).map _)
  refine ⟨hsettled.attempts, hdistinct, fun o hmem => ⟨?_, ?_⟩, hsettled.handled hbalanced, (run_followed h).same,
    run_punctual h, ?_⟩
  · exact List.mem_zipIdx_iff_getElem?.mp (hsettled.taken hbalanced o (List.mem_append_left _ hmem))
  · rw [reports_eq_filter, hsettled.attempts, Outcome.filter_commands hdistinct hmem, Outcome.commands, List.map_map]
    exact List.map_id _
  · intro config' kind' now' actions' w' log' h' hname htype hauto
    refine ⟨fun hsame => ?_, fun hlate hlate' hnone hnone' hsame => ?_⟩
    · rw [(run_account h').attempts, hsettled.attempts]
      exact Outcome.perm_commands hname htype hauto hsame
    · have hcommands := run_punctual h hlate
      have hcommands' := run_punctual h' hlate'
      rw [hnone, List.append_nil] at hcommands
      rw [hnone', List.append_nil] at hcommands'
      exact (hcommands'.map (·.2)).trans ((Outcome.perm_commands hname htype hauto hsame).trans
        (hcommands.map (·.2)).symm)

/-! ### Two schedules of the same outcomes -/

/-- Three jobs come in. -/
def Worker.intake : List Action :=
  [.poll true true, .poll true true, .poll true true, .gateway .opened,
    .gateway (.response [{ key := 1 }, { key := 2 }, { key := 3, retries := 3 }])] ++
  List.replicate 10 (.poll true true)

/-- The next job is taken, and the handler of its handling begins to run. -/
def Worker.begun (id : Nat) : List Action := List.replicate 5 (.dispatch true) ++ [.handle id, .handle id]

/-- A handler comes back well without a command of its own, and the report is answered. -/
def Worker.doneWell (id : Nat) : List Action :=
  [.finish id (.ok ()), .handle id, .answer id, .handle id, .handle id, .retire id]

/-- A handler makes a command before it comes back. -/
def Worker.doneByItself (id : Nat) : List Action :=
  [.use id, .finish id (.ok ()), .handle id, .handle id, .handle id, .retire id]

/-- A handler breaks down. -/
def Worker.doneBadly (id : Nat) : List Action :=
  [.finish id (.error .panicked), .handle id, .answer id, .handle id, .handle id, .retire id]

/-- With one slot the three handlings come one after the other. -/
def Worker.inTurn : List Action :=
  intake ++ begun 0 ++ doneByItself 0 ++ begun 1 ++ doneWell 1 ++ begun 2 ++ doneBadly 2

/-- With two slots the second handling overtakes the first. -/
def Worker.overtaking : List Action :=
  intake ++ begun 0 ++ begun 1 ++ doneWell 1 ++ doneByItself 0 ++ begun 2 ++ doneBadly 2

/-- The settings of a worker that completes jobs, with a number of slots. -/
def Worker.completing (slots : Nat) : WorkerConfig :=
  { jobType := "foo", workerName := "worker", autoCompletion := true, handlerThreads := slots }

/-- In both runs the second job is completed, the third is marked as failed with one retry less, and there is no
command about the first. No client is used late, so that this follows from what the handlers left as well. -/
theorem Worker.commands_in_any_order :
    (∃ w, run inTurn (start (completing 1) .async 0) = some w) ∧
    (∃ w, run overtaking (start (completing 2) .async 0) = some w) ∧
    (attempts (history overtaking (start (completing 2) .async 0))).map (·.2) = [
      .complete { key := 2, vars := "" },
      .fail { key := 3, retries := 2, backoff := 0, vars := "", message :=
        "Job worker 'worker' tried to handle job of type 'foo', but the handler failed: handler panicked" }] ∧
    ((attempts (history overtaking (start (completing 2) .async 0))).map (·.2)).Perm
      ((attempts (history inTurn (start (completing 1) .async 0))).map (·.2)) ∧
    lateUses (history inTurn (start (completing 1) .async 0)) = [] ∧
    (attempts (history inTurn (start (completing 1) .async 0))).Perm
      ((returns (history inTurn (start (completing 1) .async 0))).flatMap (·.commands (completing 1))) := by
  obtain ⟨w, hone⟩ : ∃ w, run inTurn (start (completing 1) .async 0) = some w := ⟨_, rfl⟩
  obtain ⟨w', htwo⟩ : ∃ w, run overtaking (start (completing 2) .async 0) = some w := ⟨_, rfl⟩
  have hdue : w.ledger.attemptsDue (completing 1) = [] := by cases hone; rfl
  have hdue' : w'.ledger.attemptsDue (completing 2) = [] := by cases htwo; rfl
  have hsame : ((returns (history overtaking (start (completing 2) .async 0))).map Outcome.essence).Perm
      ((returns (history inTurn (start (completing 1) .async 0))).map Outcome.essence) := .swap _ _ _
  obtain ⟨-, -, -, -, -, punctual, anyOther⟩ := run_commands hone
  have hcommands := punctual rfl
  rw [hdue, List.append_nil] at hcommands
  have hothers := (anyOther _ _ _ _ w' htwo rfl rfl rfl).2 rfl rfl hdue hdue' hsame
  exact ⟨⟨w, hone⟩, ⟨w', htwo⟩, rfl, hothers, rfl, hcommands⟩

/-! ### A task that is left behind -/

/-- The handler of the first job starts a task, which it does not wait for, and comes back well. The task uses the
client before the handling looks. -/
def Worker.usedBeforeLook : List Action :=
  intake ++ begun 0 ++ [.finish 0 (.ok ()), .use 0, .handle 0, .handle 0, .handle 0, .retire 0]

/-- Or the handling looks before the task uses the client. -/
def Worker.usedAfterLook : List Action :=
  intake ++ begun 0 ++ [.finish 0 (.ok ()), .handle 0, .use 0, .answer 0, .handle 0, .handle 0, .retire 0]

/-- In both runs the handler came back well, and no command had been made by then, so that what it left calls for the
completion of its job. The one run handles the job without a command, the other completes it. -/
theorem Worker.late_use_prevents_completion :
    ∃ w w', run usedBeforeLook (start (completing 1) .async 0) = some w ∧
      run usedAfterLook (start (completing 1) .async 0) = some w' ∧ w.handlings = [] ∧ w'.handlings = [] ∧
      (returns (history usedBeforeLook (start (completing 1) .async 0))).map
        (fun o => (o.id, o.job.key, o.used, o.result.isOk)) = [(0, 1, false, true)] ∧
      returns (history usedAfterLook (start (completing 1) .async 0)) =
        returns (history usedBeforeLook (start (completing 1) .async 0)) ∧
      (returns (history usedBeforeLook (start (completing 1) .async 0))).flatMap (·.commands (completing 1)) =
        [(0, .complete { key := 1, vars := "" })] ∧
      (passings .discounted (history usedBeforeLook (start (completing 1) .async 0))).map (·.2) = [0] ∧
      attempts (history usedBeforeLook (start (completing 1) .async 0)) = [] ∧
      attempts (history usedAfterLook (start (completing 1) .async 0)) = [(0, .complete { key := 1, vars := "" })] :=
  ⟨_, _, rfl, rfl, rfl, rfl, rfl, rfl, rfl, rfl, rfl, rfl⟩

end Law

end JobWorker
