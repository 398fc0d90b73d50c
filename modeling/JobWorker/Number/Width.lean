/-!
# `JobWorker.Number.Width` — the ends of the whole numbers of a width

Settings, requests and JSON texts hold whole numbers of 32 or 64 bits. What does not fit is refused or cut
to the nearer end; nothing ever wraps around.

## Contents
- **64 bits.** `maxUnsigned64`, `maxSigned64`, `minSigned64`.
- **32 bits.** `maxUnsigned32`, `maxSigned32`.
-/

namespace JobWorker

/-- The largest whole number of 64 bits without sign. -/
def maxUnsigned64 : Nat := 18446744073709551615

/-- The largest whole number of 64 bits with sign. -/
def maxSigned64 : Nat := 9223372036854775807

/-- The smallest whole number of 64 bits with sign. -/
def minSigned64 : Int := -9223372036854775808

/-- The largest whole number of 32 bits without sign. -/
def maxUnsigned32 : Nat := 4294967295

/-- The largest whole number of 32 bits with sign. -/
def maxSigned32 : Nat := 2147483647

end JobWorker
