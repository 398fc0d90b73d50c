import JobWorker.Command
import JobWorker.Job

/-!
# `JobWorker.Gateway` — a gateway in memory

The gateway serves scripted batches of jobs in order, one per call and never more jobs than asked for; the
rest of a batch that was cut is served next. Calls and commands can be scripted to fail. Every call is
recorded, and every command that did not fail.

## Contents
- **Types.** `ActivationRequest`, `Gateway`.
- **Script.** `push` with its halves `store` and `announce`, `failActivations`, `failCommands`.
- **Calls.** `accept` records a call and fails it if so scripted; `nextBatch?` serves one.
- **Commands.** `attempt`.
-/

namespace JobWorker

/-- A request for jobs. -/
structure ActivationRequest where
  jobType : String := ""
  worker : String := ""
  timeout : Int := 0
  maxJobs : Int := 0
  fetchVariables : List String := []
  requestTimeout : Int := 0
  tenantIds : List String := []
deriving DecidableEq, Repr

/-- A batch of jobs as the gateway sends it. -/
abbrev Batch := List WireJob

/-- The state of a gateway: what is scripted, and what was recorded. `pushes` counts the batches that were
announced to calls on hold. -/
structure Gateway where
  batches : List Batch := []
  activationFailures : List Status := []
  commandFailures : List Status := []
  requests : List ActivationRequest := []
  completed : List CompleteRequest := []
  failed : List FailRequest := []
  thrown : List ThrowRequest := []
  commandAttempts : Nat := 0
  pushes : Nat := 0
deriving DecidableEq, Repr

namespace Gateway

/-! ## Script -/

/-- The first half of a push: the batch is scripted. -/
def store (batch : Batch) (g : Gateway) : Gateway := { g with batches := g.batches ++ [batch] }

/-- The second half of a push: the calls on hold are told. -/
def announce (g : Gateway) : Gateway := { g with pushes := g.pushes + 1 }

/-- Scripts a batch for a later call, and announces it to the calls on hold. -/
def push (batch : Batch) (g : Gateway) : Gateway := (g.store batch).announce

/-- Scripts the next calls to fail. -/
def failActivations (status : Status) (times : Nat) (g : Gateway) : Gateway :=
  { g with activationFailures := g.activationFailures ++ List.replicate times status }

/-- Scripts the next commands to fail. -/
def failCommands (status : Status) (times : Nat) (g : Gateway) : Gateway :=
  { g with commandFailures := g.commandFailures ++ List.replicate times status }

/-! ## Calls -/

/-- Records a call; it fails if the next failure is scripted. -/
def accept (request : ActivationRequest) (g : Gateway) : Gateway × Except ClientError Unit :=
  let g := { g with requests := g.requests ++ [request] }
  match g.activationFailures with
  | []              => (g, .ok ())
  | status :: later =>
    ({ g with activationFailures := later },
      .error (.rpc status "scripted activation failure"))

/-- Serves the front batch to a worker, cut to `maxJobs`; the rest of a cut batch stays in front. -/
def nextBatch? (maxJobs : Nat) (worker : String) (g : Gateway) : Option (Batch × Gateway) :=
  match g.batches with
  | []             => none
  | batch :: later =>
    let served := (batch.take maxJobs).map fun job => { job with worker }
    let batches := if maxJobs < batch.length then batch.drop maxJobs :: later else later
    some (served, { g with batches })

/-! ## Commands -/

/-- Keeps a command that was carried out. -/
def keep (request : CommandRequest) (g : Gateway) : Gateway :=
  match request with
  | .complete r   => { g with completed := g.completed ++ [r] }
  | .fail r       => { g with failed := g.failed ++ [r] }
  | .throwError r => { g with thrown := g.thrown ++ [r] }

/-- Counts an attempt at a command and carries it out, unless the next failure is scripted. -/
def attempt (request : CommandRequest) (g : Gateway) : Gateway × Except ClientError Unit :=
  let g := { g with commandAttempts := g.commandAttempts + 1 }
  match g.commandFailures with
  | []              => (g.keep request, .ok ())
  | status :: later =>
    ({ g with commandFailures := later }, .error (.rpc status "scripted command failure"))

end Gateway

end JobWorker
