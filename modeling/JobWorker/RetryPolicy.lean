import JobWorker.Backoff
import JobWorker.Json.Record

/-!
# `JobWorker.RetryPolicy` — how retries are spaced, as a setting

A policy is what a configuration stores about growing delays. Its setters keep the coefficient at one or
more and the jitter between zero and one; a policy that was read from JSON is taken as it is.

## Contents
- **The type.** `RetryPolicy` with its defaults and `with…` setters, `RetryPolicy.toBackoff`.
- **JSON.** `RetryPolicy.toJson`, `RetryPolicy.record`, spans as whole milliseconds.
-/

namespace JobWorker

/-- The spacing of retries. -/
structure RetryPolicy where
  initialInterval : Duration := Backoff.defaultMin
  maxInterval : Duration := Backoff.defaultMax
  coefficient : Extended := Backoff.defaultFactor
  jitter : Extended := Backoff.defaultJitter
deriving DecidableEq, Repr

namespace RetryPolicy

/-- The policy where nothing is set. -/
def standard : RetryPolicy := {}

/-- Sets the first delay. -/
def withInitialInterval (d : Duration) (p : RetryPolicy) : RetryPolicy := { p with initialInterval := d }

/-- Sets the greatest delay. -/
def withMaxInterval (d : Duration) (p : RetryPolicy) : RetryPolicy := { p with maxInterval := d }

/-- Sets the coefficient, at least one. -/
def withCoefficient (c : Extended) (p : RetryPolicy) : RetryPolicy := { p with coefficient := c.max .one }

/-- Sets the jitter, between zero and one. -/
def withJitter (j : Extended) (p : RetryPolicy) : RetryPolicy := { p with jitter := j.clamp .zero .one }

/-- The delays that a policy describes. -/
def toBackoff (p : RetryPolicy) : Backoff :=
  .make p.initialInterval p.maxInterval p.coefficient p.jitter

end RetryPolicy

/-! ## JSON -/

/-- A span in JSON: whole milliseconds, at most 64 bits. -/
def Duration.toJson (d : Duration) : Json.Value := .nat (d.millisUpTo maxUnsigned64)

/-- A span out of JSON: whole milliseconds. -/
def Json.decodeMillis : Json.Decoder Duration := fun v => (Json.decodeWide v).map .ofMillis

namespace RetryPolicy

/-- A policy in JSON, its fields in order. -/
def toJson (p : RetryPolicy) : Json.Value :=
  .object [
    ("initial_interval", p.initialInterval.toJson),
    ("max_interval", p.maxInterval.toJson),
    ("backoff_coefficient", .number (.double p.coefficient)),
    ("jitter", .number (.double p.jitter))]

/-- The fields of a policy in JSON; none may be absent. -/
def record : Json.Record RetryPolicy where
  name := "RetryPolicy"
  blank := standard
  fields := [
    .of "initial_interval" Json.decodeMillis fun d p => { p with initialInterval := d },
    .of "max_interval" Json.decodeMillis fun d p => { p with maxInterval := d },
    .of "backoff_coefficient" Json.decodeDouble fun c p => { p with coefficient := c },
    .of "jitter" Json.decodeDouble fun j p => { p with jitter := j }]

/-- A policy out of JSON. -/
def decode : Json.Decoder RetryPolicy := record.decode

end RetryPolicy

end JobWorker
