import JobWorker.Config.Environment
import JobWorker.Error
import JobWorker.RetryPolicy

/-!
# `JobWorker.Config.Worker` — the settings of one worker

## Contents
- **The type.** `WorkerConfig`; a worker that is given no name gets one made for it.
- **Sources.** `WorkerConfig.ofEnvironment`, `WorkerConfig.decode`, `WorkerConfig.toJson`.
- **Check.** `WorkerConfig.check`, which names the first setting a worker cannot run with.
-/

namespace JobWorker

/-- The settings of one worker. -/
structure WorkerConfig where
  jobType : String
  workerName : String
  timeout : Duration := .ofSecs 300
  maxJobsActive : Nat := 32
  handlerThreads : Nat := 1
  pollInterval : Duration := .ofMillis 100
  pollingTimeout : Duration := .ofSecs 10
  autoCompletion : Bool := false
  fetchVariables : List String := []
  tenantIds : List String := []
  shutdownTimeout : Duration := .ofSecs 30
deriving DecidableEq, Repr

namespace WorkerConfig

/-- The settings that variables give; `madeName` is used where none names the worker. -/
def ofEnvironment (env : Environment) (madeName : String) : WorkerConfig :=
  let standard : WorkerConfig := { jobType := "", workerName := madeName }
  { jobType := (env.text? "JOBFLOW_JOB_TYPE").getD standard.jobType
    workerName := (env.text? "JOBFLOW_WORKER_NAME").getD standard.workerName
    timeout := (env.millis? "JOBFLOW_JOB_TIMEOUT_MS").getD standard.timeout
    maxJobsActive := (env.natural? maxUnsigned64 "JOBFLOW_MAX_JOBS_ACTIVE").getD standard.maxJobsActive
    handlerThreads := (env.natural? 255 "JOBFLOW_HANDLER_THREADS").getD standard.handlerThreads
    pollInterval := (env.millis? "JOBFLOW_POLL_INTERVAL_MS").getD standard.pollInterval
    pollingTimeout := (env.millis? "JOBFLOW_POLLING_TIMEOUT_MS").getD standard.pollingTimeout
    autoCompletion := (env.flag? "JOBFLOW_AUTO_COMPLETE").getD standard.autoCompletion
    fetchVariables := (env.list? "JOBFLOW_FETCH_VARIABLES").getD standard.fetchVariables
    tenantIds := (env.list? "JOBFLOW_TENANT_IDS").getD standard.tenantIds
    shutdownTimeout := standard.shutdownTimeout }

/-- Settings in JSON, in order. -/
def toJson (config : WorkerConfig) : Json.Value :=
  .object [
    ("job_type", .text config.jobType),
    ("worker_name", .text config.workerName),
    ("timeout", config.timeout.toJson),
    ("max_jobs_active", .nat config.maxJobsActive),
    ("handler_threads", .nat config.handlerThreads),
    ("poll_interval", config.pollInterval.toJson),
    ("polling_timeout", config.pollingTimeout.toJson),
    ("auto_completion", .bool config.autoCompletion),
    ("fetch_variables", .texts config.fetchVariables),
    ("tenant_ids", .texts config.tenantIds),
    ("shutdown_timeout", config.shutdownTimeout.toJson)]

/-- The settings in JSON; the two lists may be absent. -/
def record : Json.Record WorkerConfig where
  name := "JobWorkerConfig"
  blank := { jobType := "", workerName := "" }
  fields := [
    .of "job_type" Json.decodeText fun s c => { c with jobType := s },
    .of "worker_name" Json.decodeText fun s c => { c with workerName := s },
    .of "timeout" Json.decodeMillis fun d c => { c with timeout := d },
    .of "max_jobs_active" (Json.decodeUnsigned maxUnsigned64 .size)
      fun n c => { c with maxJobsActive := n },
    .of "handler_threads" (Json.decodeUnsigned 255 (.unsigned 8))
      fun n c => { c with handlerThreads := n },
    .of "poll_interval" Json.decodeMillis fun d c => { c with pollInterval := d },
    .of "polling_timeout" Json.decodeMillis fun d c => { c with pollingTimeout := d },
    .of "auto_completion" Json.decodeBool fun b c => { c with autoCompletion := b },
    (Json.Field.listOf "fetch_variables" Json.decodeText fun l c => { c with fetchVariables := l }).orAbsent,
    (Json.Field.listOf "tenant_ids" Json.decodeText fun l c => { c with tenantIds := l }).orAbsent,
    .of "shutdown_timeout" Json.decodeMillis fun d c => { c with shutdownTimeout := d }]

/-- Settings out of JSON. -/
def decode : Json.Decoder WorkerConfig := record.decode

/-- The first setting that a worker cannot run with, if there is one. -/
def fault? (config : WorkerConfig) : Option SettingFault :=
  if Text.isBlank config.jobType then some .emptyJobType
  else if config.maxJobsActive = 0 then some .noActiveJobs
  else if config.handlerThreads = 0 then some .noHandlerThreads
  else if config.pollInterval = .zero then some .noPollInterval
  else none

/-- Refuses settings that a worker cannot run with. -/
def check (config : WorkerConfig) : Except ClientError Unit :=
  match config.fault? with
  | some fault => .error (.setting fault)
  | none       => .ok ()

end WorkerConfig

end JobWorker
