import JobWorker.Command
import JobWorker.Config.Worker
import JobWorker.Job
import JobWorker.Queue

/-!
# `JobWorker.Handling` — one job with its handler

A handling calls the handler, waits for it, looks at what it left, reports, counts the job as handled and gives
its slot back. Each handling gives its handler a client of its own, and notes whether a command is made through
it. The handler may hand the client on to tasks that outlive it, so that this can happen at any time from the call
on; what counts is what the handling finds when it looks, which is some time after the handler came back. A job
whose handler came back well is then completed, if the worker is set to do so and no command has been made; one
whose handler failed is marked as failed with one retry less. A report is sent once; whatever the gateway answers,
the handling goes on.

A handler runs guarded, so that one that breaks down counts as failed. Only the call that makes an
asynchronous handler is not guarded: a handling that breaks down there is gone, and so is its slot's use,
but the job is never counted as handled.

## Contents
- **Handlers.** `HandlerKind`.
- **Reports.** `failureText`, `Handling.report?`.
- **Phases.** `HandlingPhase`, `Handling`.
- **Steps.** `Handling.step` for its own steps; `use`, `finish`, `answered` for those from outside.
-/

namespace JobWorker

/-- Whether a handler runs among the other tasks or on a thread of its own. -/
inductive HandlerKind where
  | async
  | blocking
deriving DecidableEq, Repr

/-- Debugging text of a handler. -/
def HandlerKind.inspect : HandlerKind → String
  | .async    => "JobHandler::Async"
  | .blocking => "JobHandler::Blocking"

/-- The message of a job that is marked as failed: the worker, the type of the job, the whole failure. -/
def failureText (worker jobType : String) (failure : Failure) : String :=
  "Job worker '" ++ worker ++ "' tried to handle job of type '" ++ jobType ++
    "', but the handler failed: " ++ failure.text

/-- How a handler came back. -/
abbrev HandlerResult := Except Failure Unit

/-- Where a handling stands. -/
inductive HandlingPhase where
  | starting
  | calling
  | running
  | returned (result : HandlerResult)
  | reporting (request : CommandRequest)
  | settling
  | counted
  | releasing
deriving Repr

/-- A handling: its number, its job, whether a command was made through its client, and where it stands. -/
structure Handling where
  id : Nat
  job : Job
  used : Bool := false
  phase : HandlingPhase := .starting
deriving Repr

namespace Handling

/-- The report on a job whose handler came back so, if the handling looks now and there is one. -/
def report? (config : WorkerConfig) (h : Handling) (result : HandlerResult) : Option CommandRequest :=
  match result with
  | .ok () =>
    if config.autoCompletion && !h.used then
      some (.complete { key := h.job.key, vars := documentText none })
    else none
  | .error failure =>
    some (.fail {
      key := h.job.key
      retries := h.job.retries - 1
      message := failureText config.workerName config.jobType failure
      backoff := 0
      vars := documentText none })

/-- The handling's own next step on the queue, if it does not have to wait. -/
def step {ι α : Type} [DecidableEq ι] (config : WorkerConfig) (kind : HandlerKind)
    (q : JobQueue ι α) (h : Handling) : Option (JobQueue ι α × Handling) :=
  match h.phase with
  | .starting =>
    some (q, { h with phase := match kind with
      | .async    => .calling
      | .blocking => .running })
  | .calling => some (q, { h with phase := .running })
  | .running => none
  | .returned result =>
    -- the look at the client, which is not the moment at which the handler came back
    some (q, { h with phase := match h.report? config result with
      | some request => .reporting request
      | none         => .settling })
  | .reporting _ => none
  | .settling => some (q.discount, { h with phase := .counted })
  | .counted => some (q.release, { h with phase := .releasing })
  | .releasing => none

/-- A command was made through the client of the handling: by the handler, from its call on, or by whoever got the
client from it, in any later phase. -/
def use (h : Handling) : Option Handling :=
  match h.phase with
  | .starting => none
  | _         => some { h with used := true }

/-- The client is out of hand once the handler has been called, and not before. -/
theorem use_eq_some_iff {h h' : Handling} :
    h.use = some h' ↔ h.phase ≠ .starting ∧ { h with used := true } = h' := by
  obtain ⟨id, job, used, phase⟩ := h
  cases phase <;> simp [use]

/-- The handler came back. -/
def finish (result : HandlerResult) (h : Handling) : Option Handling :=
  match h.phase with
  | .running => some { h with phase := .returned result }
  | _        => none

/-- The gateway answered the report. -/
def answered (h : Handling) : Option Handling :=
  match h.phase with
  | .reporting _ => some { h with phase := .settling }
  | _            => none

end Handling

end JobWorker
