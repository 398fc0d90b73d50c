import JobWorker.Error
import JobWorker.RetryPolicy

/-!
# `JobWorker.Command` — what can be said about a job

A handler completes a job, marks it as failed, or reports a business error. A command is put together with
optional parts and becomes the request that is sent; a business error needs a code.

## Contents
- **Requests.** `CompleteRequest`, `FailRequest`, `ThrowRequest`, `CommandRequest` with `CommandRequest.complete?`,
  `CommandRequest.fail?`, `CommandRequest.throwError?`.
- **Commands.** `Command`, `Command.request`.
-/

namespace JobWorker

/-! ## Requests -/

/-- Completes a job. -/
structure CompleteRequest where
  key : Int
  vars : String
deriving DecidableEq, Repr

/-- Marks a job as failed, with the retries it has left and the wait before the next one. -/
structure FailRequest where
  key : Int
  retries : Int
  message : String
  backoff : Int
  vars : String
deriving DecidableEq, Repr

/-- Reports a business error. -/
structure ThrowRequest where
  key : Int
  code : String
  message : String
  vars : String
deriving DecidableEq, Repr

/-- A request about a job. -/
inductive CommandRequest where
  | complete (request : CompleteRequest)
  | fail (request : FailRequest)
  | throwError (request : ThrowRequest)
deriving DecidableEq, Repr

namespace CommandRequest

/-- The completion that a request is, if it is one. -/
def complete? : CommandRequest → Option CompleteRequest
  | .complete r => some r
  | _           => none

/-- The failure that a request reports, if it reports one. -/
def fail? : CommandRequest → Option FailRequest
  | .fail r => some r
  | _       => none

/-- The business error that a request reports, if it reports one. -/
def throwError? : CommandRequest → Option ThrowRequest
  | .throwError r => some r
  | _             => none

end CommandRequest

/-! ## Commands -/

/-- A command with its optional parts. -/
inductive Command where
  | complete (key : Int) (vars : Option Json.Value)
  | fail (key : Int) (retries : Int) (message : String) (backoff : Duration)
      (vars : Option Json.Value)
  | throwError (key : Int) (code : String) (message : String) (vars : Option Json.Value)

namespace Command

/-- The job a command is about. -/
def key : Command → Int
  | .complete key _       => key
  | .fail key _ _ _ _     => key
  | .throwError key _ _ _ => key

/-- The request that a command becomes when it is sent. -/
def request : Command → Except ClientError CommandRequest
  | .complete key vars => .ok (.complete { key, vars := documentText vars })
  | .fail key retries message backoff vars =>
    .ok (.fail {
      key, retries, message
      backoff := backoff.millisUpTo maxSigned64
      vars := documentText vars })
  | .throwError key code message vars =>
    if code.isEmpty then .error (.setting .noErrorCode)
    else .ok (.throwError { key, code, message, vars := documentText vars })

end Command

end JobWorker
