import JobWorker.Document
import JobWorker.Proofs.Json.Canonical

/-!
# `JobWorker.Proofs.Document` — documents survive the wire

An object without doubles is written as a text that gives it back, unless it nests too deep, and then the text is
refused for its depth. A document that was accepted nests no deeper than is allowed, so that writing its members
and reading them again changes nothing, and the text they are written as is final.

## Contents
- **Texts.** `parse_render`, `readDocument_chars`, `readDocument_tooDeep`, `documentText_toList`.
- **Members.** `isBlank_documentText`, `readObject_documentText`, `readObject_tooDeep`, `readObject_fits`.
- **Rewriting.** `rewrite`.
- **Survival.** `documents_survive`; `nested` values of a given depth.
-/

namespace JobWorker

namespace Json

/-! ## Texts -/

/-- The text of a value gives the value back, with its members arranged. -/
theorem readDocument_legible {depth : Nat} {v : Value} (hlegible : v.Legible) (hdepth : v.depth ≤ depth) :
    readDocument depth v.chars = .ok v.arranged := by
  have hread := readValue_chars v (2 * v.chars.length + 2) depth hlegible hdepth (by omega) EndsNumber.nil
  rw [List.append_nil] at hread
  rw [readDocument, hread]
  rfl

/-- A value whose numbers show is given back by its text, unless it nests too deep. -/
theorem parse_render {v : Value} (hlegible : v.Legible) (hdepth : v.depth ≤ maxDepth) :
    Value.parse v.render = .ok v.arranged := by
  rw [Value.parse, Value.render, String.toList_ofList, readDocument_legible hlegible hdepth]
  rfl

theorem readDocument_chars {depth : Nat} {v : Value} (hcanonical : v.Canonical) (hwhole : v.Whole)
    (hdepth : v.depth ≤ depth) : readDocument depth v.chars = .ok v := by
  rw [readDocument_legible (hcanonical.legible hwhole) hdepth, hcanonical.arranged_eq]

/-- The text of a value that nests too deep is refused. -/
theorem readDocument_tooDeep {depth : Nat} {v : Value} (hcanonical : v.Canonical) (hwhole : v.Whole)
    (hdepth : depth < v.depth) : TooDeep (readDocument depth v.chars) := by
  have hread := readValue_tooDeep v (2 * v.chars.length + 2) depth [] (hcanonical.legible hwhole) hdepth (by omega)
  rw [List.append_nil] at hread
  exact hread.bind _

end Json

open Json

theorem documentText_toList (v : Value) : (documentText (some v)).toList = v.chars :=
  String.toList_ofList

/-! ## Members -/

variable {members : Members}

/-- The text of an object is not blank: it begins with an opening mark. -/
theorem isBlank_documentText (members : Members) :
    Text.isBlank (documentText (some (.object members))) = false := by
  rw [Text.isBlank, documentText_toList]
  rfl

/-- An object that nests no deeper than is allowed is read back. -/
theorem readObject_documentText (field : String) (hcanonical : (Value.object members).Canonical)
    (hwhole : (Value.object members).Whole) (hdepth : (Value.object members).depth ≤ maxDepth) :
    readObject field (documentText (some (.object members))) = .ok members := by
  rw [readObject, isBlank_documentText members, Value.parse, documentText_toList,
    readDocument_chars hcanonical hwhole hdepth]
  rfl

/-- An object that nests deeper than is allowed is refused for that. -/
theorem readObject_tooDeep (field : String) (hcanonical : (Value.object members).Canonical)
    (hwhole : (Value.object members).Whole) (hdepth : maxDepth < (Value.object members).depth) :
    ∃ e, readObject field (documentText (some (.object members))) = .error (.invalidDocument field e) ∧
      e.cause = .grammar .tooDeep := by
  obtain ⟨fault, hfault, hcause⟩ := readDocument_tooDeep hcanonical hwhole hdepth
  refine ⟨fault.toError (Value.object members).chars, ?_, hcause⟩
  rw [readObject, isBlank_documentText members, Value.parse, documentText_toList, hfault]
  rfl

/-- The members of an accepted document are canonical and nest no deeper than is allowed. -/
theorem readObject_fits {field text : String} (h : readObject field text = .ok members) :
    (Value.object members).Fits maxDepth := by
  have hempty : (Value.object []).Fits maxDepth := ⟨⟨List.Pairwise.nil, trivial⟩, by decide, trivial⟩
  rw [readObject] at h
  split at h
  · rw [← Except.ok.inj h]
    exact hempty
  split at h
  · cases h
  · rename_i hparse
    rw [← Except.ok.inj h]
    rw [Value.parse] at hparse
    cases hread : readDocument maxDepth text.toList with
    | error fault =>
        rw [hread] at hparse
        cases hparse
    | ok v =>
        rw [hread] at hparse
        rw [← Except.ok.inj hparse]
        exact readDocument_fits hread
  · rw [← Except.ok.inj h]
    exact hempty
  · cases h

/-! ## Rewriting -/

/-- A document read and written again, as when a handler answers a job with the variables it came with. -/
def rewrite (field text : String) : Except ConversionError String := do
  let members ← readObject field text
  return documentText (some (.object members))

theorem rewrite_of_readObject {field text : String} (h : readObject field text = .ok members) :
    rewrite field text = .ok (documentText (some (.object members))) := by
  rw [rewrite, h]
  rfl

/-! ## Survival -/

/-- Lists around a null, `n` of them. -/
def nested : Nat → Value
  | 0     => .null
  | n + 1 => .list [nested n]

theorem nested_spec (n : Nat) : (nested n).Canonical ∧ (nested n).Whole ∧ (nested n).depth = n := by
  induction n with
  | zero => exact ⟨trivial, trivial, rfl⟩
  | succ n ih =>
      obtain ⟨hcanonical, hwhole, hdepth⟩ := ih
      refine ⟨⟨hcanonical, trivial⟩, ⟨hwhole, trivial⟩, ?_⟩
      rw [nested, Value.depth, Value.itemsDepth, Value.itemsDepth, hdepth, Nat.max_zero]

/-- **Documents survive the wire.** The text of an object without doubles is never blank; it is read as the same
object where that nests no deeper than 127, and refused for its depth otherwise. So the members of any accepted
document without doubles, however it was written, are read again from the text they are written as, and that text
is written again as it stands. -/
theorem documents_survive (field : String) :
    (∀ members, (Value.object members).Canonical → (Value.object members).Whole →
      Text.isBlank (documentText (some (.object members))) = false ∧
      ((Value.object members).depth ≤ 127 →
        readObject field (documentText (some (.object members))) = .ok members) ∧
      (128 ≤ (Value.object members).depth →
        ∃ e, readObject field (documentText (some (.object members))) = .error (.invalidDocument field e) ∧
          e.cause = .grammar .tooDeep)) ∧
    ∀ text members, readObject field text = .ok members → (Value.object members).Whole →
      let written := documentText (some (.object members))
      readObject field written = .ok members ∧ rewrite field text = .ok written ∧
        rewrite field written = .ok written := by
  refine ⟨?_, ?_⟩
  · intro members hcanonical hwhole
    refine ⟨isBlank_documentText members, ?_, ?_⟩
    · intro hdepth
      exact readObject_documentText field hcanonical hwhole hdepth
    · intro hdepth
      exact readObject_tooDeep field hcanonical hwhole hdepth
  · intro text members hread hwhole written
    obtain ⟨hcanonical, hdepth⟩ := readObject_fits hread
    have hagain : readObject field written = .ok members := readObject_documentText field hcanonical hwhole hdepth
    exact ⟨hagain, rewrite_of_readObject hread, rewrite_of_readObject hagain⟩

/-- The variables of an order are read back, those of a job that came with none are written as none, and a list
nested 127 deep is one too deep inside an object. -/
theorem documents_survive_order :
    readObject "variables" "\x7b\"orderId\":42,\"paid\":true\x7d" = .ok [("orderId", .int 42), ("paid", .bool true)] ∧
    rewrite "variables" " null " = .ok "\x7b\x7d" ∧ rewrite "variables" "\x7b\x7d" = .ok "\x7b\x7d" ∧
    ∃ e, readObject "variables" (documentText (some (.object [("a", nested 127)]))) =
      .error (.invalidDocument "variables" e) ∧ e.cause = .grammar .tooDeep := by
  have horder := (documents_survive "variables").1 [("orderId", .int 42), ("paid", .bool true)]
    ⟨by decide, (by decide : isWide 42 = true), trivial, trivial⟩ ⟨trivial, trivial, trivial⟩
  have hnone := (documents_survive "variables").2 " null " [] rfl trivial
  obtain ⟨hcanonical, hwhole, hdepth⟩ := nested_spec 127
  have hnested := (documents_survive "variables").1 [("a", nested 127)]
    ⟨List.pairwise_singleton _ _, hcanonical, trivial⟩ ⟨hwhole, trivial⟩
  refine ⟨horder.2.1 (by decide), hnone.2.1, hnone.2.2, hnested.2.2 ?_⟩
  rw [Value.depth, Value.membersDepth, hdepth]
  decide

/-- Blanks go, an escaped letter stands as it is, keys ascend, and the last value of a key stays. -/
example :
    (rewrite "variables" " \x7b\"b\":2, \"a\":\"\\u0041\",\"b\":[-7]\x7d").toOption =
      some "\x7b\"a\":\"A\",\"b\":[-7]\x7d" := by
  decide +kernel

end JobWorker
