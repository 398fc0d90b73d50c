import JobWorker.Document
import JobWorker.Timestamp
import JobWorker.Json.Record

/-!
# `JobWorker.Job` — jobs on the wire and in hand

A gateway sends a job as flat fields with two JSON documents and a deadline in milliseconds. In hand a job
has its variables as an object, its headers as texts and its deadline as a point in time. A job whose
documents or deadline make no sense has no counterpart in hand.

## Contents
- **Types.** `WireJob` with `WireJob.plain`, `Job`.
- **Conversion.** `headerText`, `Job.ofWire`: variables are checked first, then headers, then the deadline.
- **Variables.** `Job.vars`, `Job.readAs`.
-/

namespace JobWorker

/-- A job as a gateway sends it. -/
structure WireJob where
  key : Int := 0
  jobType : String := ""
  processInstanceKey : Int := 0
  bpmnProcessId : String := ""
  processDefinitionVersion : Int := 0
  processDefinitionKey : Int := 0
  elementId : String := ""
  elementInstanceKey : Int := 0
  customHeaders : String := ""
  worker : String := ""
  retries : Int := 0
  deadline : Int := 0
  vars : String := ""
  tenantId : String := ""
deriving DecidableEq, Repr, Inhabited

/-- A wire job with three retries, empty documents and nothing else. -/
def WireJob.plain (key : Int) (jobType : String) (deadline : Int) : WireJob :=
  { key, jobType, retries := 3, deadline, vars := "\x7b\x7d", customHeaders := "\x7b\x7d" }

/-- A job in hand, assigned to one worker until its deadline. -/
structure Job where
  key : Int
  jobType : String
  processInstanceKey : Int
  bpmnProcessId : String
  processDefinitionVersion : Int
  processDefinitionKey : Int
  elementId : String
  elementInstanceKey : Int
  customHeaders : List (String × String)
  worker : String
  retries : Int
  deadline : Timestamp
  members : Json.Members
  tenantId : String
deriving Repr

/-- A header as text: a string stands for itself, any other value for its JSON text. -/
def headerText : Json.Value → String
  | .text s => s
  | v       => v.render

namespace Job

/-- The variables of a job, always an object. -/
def vars (job : Job) : Json.Value := .object job.members

/-- The variables read as something more particular. -/
def readAs {α : Type} (decode : Json.Decoder α) (job : Job) : Except Json.Error α :=
  (decode job.vars).mapError fun e => { cause := .shape e, position := none }

/-- The job that a wire job stands for. -/
def ofWire (wire : WireJob) : Except ConversionError Job := do
  let members ← readObject "variables" wire.vars
  let headers ← readObject "customHeaders" wire.customHeaders
  match Timestamp.ofMillis? wire.deadline with
  | none => throw (.invalidTimestamp wire.deadline)
  | some deadline =>
    return {
      key := wire.key
      jobType := wire.jobType
      processInstanceKey := wire.processInstanceKey
      bpmnProcessId := wire.bpmnProcessId
      processDefinitionVersion := wire.processDefinitionVersion
      processDefinitionKey := wire.processDefinitionKey
      elementId := wire.elementId
      elementInstanceKey := wire.elementInstanceKey
      customHeaders := headers.map fun header => (header.1, headerText header.2)
      worker := wire.worker
      retries := wire.retries
      deadline
      members
      tenantId := wire.tenantId }

/-- The jobs in hand of some wire jobs; those that do not convert are left out. -/
def ofBatch (batch : List WireJob) : List Job := batch.filterMap fun wire => (ofWire wire).toOption

end Job

end JobWorker
