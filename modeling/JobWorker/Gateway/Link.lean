import JobWorker.Activation
import JobWorker.Gateway.Call

/-!
# `JobWorker.Gateway.Link` — the caller's end of an activation call

A link takes one call at a gateway in memory from its request to the end of its stream and tells the caller
what happens. The caller's token may end it at any point; what was served and not yet handed on is then
lost.

## Contents
- **The type.** `Link`.
- **Steps.** `Link.step`, `Link.wake?`.
-/

namespace JobWorker

/-- No call, a call that is being opened, or the responses that are still to come. -/
inductive Link where
  | idle
  | opening (call : Call)
  | streaming (rest : List Batch)
deriving Repr

namespace Link

/-- The next step of a link whose caller waits, and what it tells the caller. `token` prefers the token to
anything else that is ready, `timer` the end of the long poll to an announced batch. -/
def step (now : Time) (cancelled token timer : Bool) (request : ActivationRequest) (g : Gateway) :
    Link → Option (Gateway × Link × Option CallEvent)
  | .idle =>
    if cancelled && token then some (g, .idle, some .cancelled)
    else some (g, .opening { request }, none)
  | .opening call =>
    if cancelled && token then some (g, .idle, some .cancelled)
    else
      match call.answer? with
      | some (.ok responses) => some (g, .streaming responses, some .opened)
      | some (.error e)      => some (g, .idle, some (.failed e))
      | none =>
        match call.step now timer g with
        | some (g, call) => some (g, .opening call, none)
        | none => if cancelled then some (g, .idle, some .cancelled) else none
  | .streaming rest =>
    if cancelled && token then some (g, .idle, some .cancelled)
    else
      match rest with
      | []            => some (g, .idle, some .ended)
      | batch :: rest => some (g, .streaming rest, some (.response batch))

/-- The tick at which a waiting link goes on by itself. -/
def wake? : Link → Option Time
  | .opening call => call.wake?
  | _             => none

end Link

end JobWorker
