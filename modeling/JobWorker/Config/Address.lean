import JobWorker.Config.Client
import JobWorker.Error

/-!
# `JobWorker.Config.Address` — addresses that a channel can be opened to

An address is a URI: a scheme before `://`, an authority, and a path with its query. A text without a scheme
is an authority alone. The authority holds URI characters only, its brackets come as one pair, and behind
its user part and its brackets there is at most one colon and no percent sign.

## Contents
- **Characters.** `isUriChar`, `isSchemeChar`, `isPathChar`, `isQueryChar`.
- **Parts.** `schemeLength?`, `AuthorityScan`, `scanAuthority`, `isPath`.
- **Whole.** `isUri`, `ClientConfig.checkAddress`.
-/

namespace JobWorker

namespace Address

/-! ## Characters -/

/-- The characters that an authority may hold, besides the percent sign of its user part. -/
def isUriChar (c : Char) : Bool := c.isAlphanum || "-._~:/?#[]@!$&'()*+,;=".toList.contains c

/-- The characters of a scheme. -/
def isSchemeChar (c : Char) : Bool := c.isAlphanum || c == '+' || c == '-' || c == '.'

/-- The characters of a path: what can be seen but `<`, `>` and the grave accent, and all beyond ASCII. -/
def isPathChar (c : Char) : Bool :=
  decide (32 < c.toNat) && c != '<' && c != '>' && c.toNat != 0x60

/-- The characters of a query: what can be seen but the quotation mark, `<` and `>`, and all beyond ASCII. -/
def isQueryChar (c : Char) : Bool := decide (32 < c.toNat) && c != '"' && c != '<' && c != '>'

/-! ## Parts -/

/-- The longest text that is read as a URI, in bytes. -/
def maxLength : Nat := 65534

/-- The longest scheme. -/
def maxSchemeLength : Nat := 64

/-- How many characters stand before the `://` of a scheme; `none` where there is no scheme. -/
def schemeLength? (s : List Char) : Option Nat :=
  match s.span isSchemeChar with
  | (word, ':' :: '/' :: '/' :: _) => some word.length
  | _                              => none

/-- What has been seen of an authority. -/
structure AuthorityScan where
  colons : Nat := 0
  opened : Bool := false
  closed : Bool := false
  percent : Bool := false
  afterAt : Bool := false
deriving DecidableEq, Repr

/-- How many colons are looked at before the rest is given up. -/
def maxColons : Nat := 8

/-- Reads an authority up to its end: what was seen, and what follows. A user part and a pair of brackets
take their colons and percent signs with them. -/
def scanAuthority (seen : AuthorityScan) : List Char → Option (AuthorityScan × List Char)
  | []      => some (seen, [])
  | c :: cs =>
    if c = '/' ∨ c = '?' ∨ c = '#' then some (seen, c :: cs)
    else if c = ':' then
      if seen.colons = maxColons then some (seen, [])
      else scanAuthority { seen with colons := seen.colons + 1, afterAt := false } cs
    else if c = '[' then
      if seen.percent || seen.opened then none
      else scanAuthority { seen with opened := true, afterAt := false } cs
    else if c = ']' then
      if !seen.opened || seen.closed then none
      else scanAuthority { seen with closed := true, colons := 0, percent := false, afterAt := false } cs
    else if c = '@' then scanAuthority { seen with colons := 0, percent := false, afterAt := true } cs
    else if c = '%' then scanAuthority { seen with percent := true, afterAt := false } cs
    else if isUriChar c then scanAuthority { seen with afterAt := false } cs
    else none

/-- Whether an authority that was read to its end is one. -/
def AuthorityScan.isComplete (seen : AuthorityScan) : Bool :=
  seen.opened == seen.closed && decide (seen.colons ≤ 1) && !seen.afterAt && !seen.percent

/-- What follows an authority, if the text begins with one. -/
def afterAuthority? (s : List Char) : Option (List Char) :=
  match scanAuthority {} s with
  | some (seen, rest) => if seen.isComplete then some rest else none
  | none              => none

/-- Whether a text is a path with its query; what follows a number sign does not count. -/
def isPath (s : List Char) : Bool :=
  let text := s.takeWhile (· != '#')
  let path := text.takeWhile (· != '?')
  path.all isPathChar && ((text.dropWhile (· != '?')).drop 1).all isQueryChar

/-! ## Whole addresses -/

/-- Whether a text is a URI. -/
def isUri (text : String) : Bool :=
  let s := text.toList
  if s.isEmpty || decide (maxLength < text.utf8ByteSize) then false
  else if s.head? == some '/' then isPath s
  else
    match schemeLength? s with
    | some n =>
      if maxSchemeLength < n then false
      else
        let s := s.drop (n + 3)
        match afterAuthority? s with
        | some rest => decide (rest.length < s.length) && isPath rest
        | none      => false
    | none => afterAuthority? s == some []

end Address

/-- Refuses an address that no channel can be opened to. -/
def ClientConfig.checkAddress (config : ClientConfig) : Except ClientError Unit :=
  if Address.isUri config.endpoint then .ok () else .error (.transport .invalidAddress)

end JobWorker
