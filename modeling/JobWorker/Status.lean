/-!
# `JobWorker.Status` — status codes of gateway calls

A gateway ends a call with one of seventeen numbered codes. Two of them are passing conditions that are
worth another attempt, two are the ordinary end of a call that was held open.

## Contents
- **Codes.** `Status`, `Status.all` in numeric order, `Status.number`, `Status.ofNumber` (any other number
  is unknown), `Status.name`.
- **Classes.** `Status.isTransient`, `Status.endsPoll`.
-/

namespace JobWorker

/-- The status codes, in numeric order. -/
inductive Status where
  | ok
  | cancelled
  | unknown
  | invalidArgument
  | deadlineExceeded
  | notFound
  | alreadyExists
  | permissionDenied
  | resourceExhausted
  | failedPrecondition
  | aborted
  | outOfRange
  | unimplemented
  | internal
  | unavailable
  | dataLoss
  | unauthenticated
deriving DecidableEq, Repr, Inhabited

namespace Status

/-- All codes, each at the place of its number. -/
def all : List Status :=
  [ok, cancelled, unknown, invalidArgument, deadlineExceeded, notFound, alreadyExists,
    permissionDenied, resourceExhausted, failedPrecondition, aborted, outOfRange, unimplemented,
    internal, unavailable, dataLoss, unauthenticated]

/-- The number of a code. -/
def number : Status → Nat
  | ok                 => 0
  | cancelled          => 1
  | unknown            => 2
  | invalidArgument    => 3
  | deadlineExceeded   => 4
  | notFound           => 5
  | alreadyExists      => 6
  | permissionDenied   => 7
  | resourceExhausted  => 8
  | failedPrecondition => 9
  | aborted            => 10
  | outOfRange         => 11
  | unimplemented      => 12
  | internal           => 13
  | unavailable        => 14
  | dataLoss           => 15
  | unauthenticated    => 16

/-- The code with a number; a number that is none is unknown. -/
def ofNumber (n : Int) : Status :=
  if 0 ≤ n then (all[n.toNat]?).getD unknown else unknown

/-- The name of a code. -/
def name : Status → String
  | ok                 => "Ok"
  | cancelled          => "Cancelled"
  | unknown            => "Unknown"
  | invalidArgument    => "InvalidArgument"
  | deadlineExceeded   => "DeadlineExceeded"
  | notFound           => "NotFound"
  | alreadyExists      => "AlreadyExists"
  | permissionDenied   => "PermissionDenied"
  | resourceExhausted  => "ResourceExhausted"
  | failedPrecondition => "FailedPrecondition"
  | aborted            => "Aborted"
  | outOfRange         => "OutOfRange"
  | unimplemented      => "Unimplemented"
  | internal           => "Internal"
  | unavailable        => "Unavailable"
  | dataLoss           => "DataLoss"
  | unauthenticated    => "Unauthenticated"

/-- Overload and unavailability pass: the same call may succeed a little later. -/
def isTransient (s : Status) : Bool := s == resourceExhausted || s == unavailable

/-- The codes that end a held call in the ordinary way, without jobs. -/
def endsPoll (s : Status) : Bool := s == deadlineExceeded || s == cancelled

end Status

end JobWorker
