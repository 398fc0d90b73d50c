import JobWorker.Config.Environment
import JobWorker.Json.RecordReader
import JobWorker.RetryPolicy

/-!
# `JobWorker.Config.Client` — where the gateway is and how to reach it

## Contents
- **The type.** `ClientConfig`, `ClientConfig.endpoint` (an address without scheme is plain HTTP).
- **Sources.** `ClientConfig.ofEnvironment`, `ClientConfig.decode`, `ClientConfig.toJson`.
-/

namespace JobWorker

/-- How to reach a gateway. -/
structure ClientConfig where
  gatewayAddress : String := "127.0.0.1:26500"
  connectTimeout : Duration := .ofSecs 10
  retry : RetryPolicy := {}
deriving DecidableEq, Repr

namespace ClientConfig

/-- Whether one run of characters occurs in another. -/
def occursIn (word : List Char) : List Char → Bool
  | []      => word.isEmpty
  | c :: cs => word.isPrefixOf (c :: cs) || occursIn word cs

/-- The address as a URI. -/
def endpoint (config : ClientConfig) : String :=
  if occursIn "://".toList config.gatewayAddress.toList then config.gatewayAddress
  else "http://" ++ config.gatewayAddress

/-- The configuration that variables give; the rest keeps its defaults. -/
def ofEnvironment (env : Environment) : ClientConfig :=
  let standard : ClientConfig := {}
  { gatewayAddress := (env.text? "JOBFLOW_GATEWAY_ADDRESS").getD standard.gatewayAddress
    connectTimeout := (env.millis? "JOBFLOW_CONNECT_TIMEOUT_MS").getD standard.connectTimeout }

/-- A configuration in JSON, its fields in order. -/
def toJson (config : ClientConfig) : Json.Value :=
  .object [
    ("gateway_address", .text config.gatewayAddress),
    ("connect_timeout", config.connectTimeout.toJson),
    ("retry", config.retry.toJson)]

/-- The fields of a configuration in JSON; the policy may be absent. -/
def record : Json.Record ClientConfig where
  name := "ClientConfig"
  blank := {}
  fields := [
    .of "gateway_address" Json.decodeText fun s c => { c with gatewayAddress := s },
    .of "connect_timeout" Json.decodeMillis fun d c => { c with connectTimeout := d },
    (Json.Field.recordOf "retry" RetryPolicy.record fun p c => { c with retry := p }).orAbsent]

/-- A configuration out of JSON. -/
def decode : Json.Decoder ClientConfig := record.decode

end ClientConfig

end JobWorker
