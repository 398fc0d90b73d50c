import JobWorker.Document
import JobWorker.Status

/-!
# `JobWorker.Error` — what can go wrong for a client

Errors are causes; the wording is in `message`. An error may rest on another one, and the chain of these
sources is what a log line joins with colons.

## Contents
- **Causes.** `SettingFault`, `TransportFault`, `ClientError`.
- **Wording.** `message`, `sources`, `ClientError.chainText`, `ClientError.inspect`.
- **Classes.** `status?`, `isTransient`, `endsPoll`.
- **Handlers.** `Failure`, an error that gathered context on its way out.
-/

namespace JobWorker

/-! ## Causes -/

/-- What a worker or command is missing before it can do anything. -/
inductive SettingFault where
  | emptyJobType
  | noActiveJobs
  | noHandlerThreads
  | noPollInterval
  | noHandler
  | noErrorCode
  | other (message : String)
deriving DecidableEq, Repr

/-- The wording of a setting fault. -/
def SettingFault.message : SettingFault → String
  | .emptyJobType     => "job type must not be empty"
  | .noActiveJobs     => "max jobs active must be greater than 0"
  | .noHandlerThreads => "handler threads must be greater than 0"
  | .noPollInterval   => "poll interval must be greater than 0"
  | .noHandler        => "a job handler is required"
  | .noErrorCode      => "throw error command requires an error code"
  | .other message    => message

/-- Why there is no channel to a gateway. -/
inductive TransportFault where
  | invalidAddress
deriving DecidableEq, Repr

/-- The wording of a transport fault. -/
def TransportFault.message : TransportFault → String
  | .invalidAddress => "invalid URI"

/-- The errors of gateway calls and of settings. -/
inductive ClientError where
  | rpc (status : Status) (message : String)
  | transport (fault : TransportFault)
  | payload (source : Json.Error)
  | conversion (source : ConversionError)
  | cancelled
  | setting (fault : SettingFault)
deriving DecidableEq, Repr

namespace ClientError

/-! ## Wording -/

/-- The wording of an error. -/
def message : ClientError → String
  | .rpc status text   => "gateway returned " ++ status.name ++ ": " ++ text
  | .transport fault   => "transport error: " ++ fault.message
  | .payload source    => "invalid job payload: " ++ source.message
  | .conversion source => "invalid job from gateway: " ++ source.message
  | .cancelled         => "operation cancelled"
  | .setting fault     => "invalid configuration: " ++ fault.message

/-- The errors that an error rests on, outermost first. -/
def sources : ClientError → List String
  | .transport fault   => [fault.message]
  | .payload source    => [source.message]
  | .conversion source => source.message :: source.sources
  | _                  => []

/-- An error and its sources in one line. -/
def chainText (e : ClientError) : String := String.intercalate ": " (e.message :: e.sources)

/-- The fields of an error, for debugging; errors that rest on others show these as their wording. -/
def inspect : ClientError → String
  | .rpc status text =>
    "Rpc \x7b code: " ++ status.name ++ ", message: " ++ Text.quote text ++ " \x7d"
  | .transport fault   => "Transport(" ++ fault.message ++ ")"
  | .payload source    => "Payload(" ++ source.message ++ ")"
  | .conversion source => "Conversion(" ++ source.message ++ ")"
  | .cancelled         => "Cancelled"
  | .setting fault     => "Config(" ++ Text.quote fault.message ++ ")"

/-! ## Classes -/

/-- The status code of an error that a gateway returned. -/
def status? : ClientError → Option Status
  | .rpc status _ => some status
  | _             => none

/-- Whether another attempt may succeed. -/
def isTransient (e : ClientError) : Bool := e.status?.any Status.isTransient

/-- It may when the broker is overloaded or cannot be reached. -/
theorem isTransient_iff {e : ClientError} : e.isTransient = true ↔
    ∃ message, e = .rpc .resourceExhausted message ∨ e = .rpc .unavailable message := by
  cases e with
  | rpc status message => cases status <;> simp [isTransient, status?, Status.isTransient]
  | _ => simp [isTransient, status?]

/-- Whether an activation call ended so in the ordinary way. -/
def endsPoll (e : ClientError) : Bool := e == .cancelled || e.status?.any Status.endsPoll

end ClientError

/-! ## Failures of handlers -/

/-- What a failure began with: a text, or an error of the client. -/
inductive Origin where
  | text (message : String)
  | error (e : ClientError)
deriving DecidableEq, Repr

/-- A failure with the contexts it gathered, the outermost first. -/
structure Failure where
  contexts : List String
  origin : Origin
deriving DecidableEq, Repr

namespace Failure

/-- A failure that is only a text. -/
def ofText (message : String) : Failure := ⟨[], .text message⟩

/-- A failure that is only an error. -/
def ofError (e : ClientError) : Failure := ⟨[], .error e⟩

/-- The failure of a handler that did not come back. -/
def panicked : Failure := ofText "handler panicked"

/-- The same failure within a further context. -/
def within (context : String) (f : Failure) : Failure := { f with contexts := context :: f.contexts }

/-- The links of a failure, the outermost first. -/
def chain (f : Failure) : List String :=
  f.contexts ++ match f.origin with
    | .text message => [message]
    | .error e      => e.message :: e.sources

/-- The outermost link. -/
def outermost (f : Failure) : String := f.chain.headD ""

/-- All links in one line. -/
def text (f : Failure) : String := String.intercalate ": " f.chain

end Failure

end JobWorker
