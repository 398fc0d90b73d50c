/-!
# `JobWorker.Proofs.Places` — numbered places in a list

Calls at a gateway, commands and consumers are numbered by their places in a list, which grows at its end and in which a
place may be replaced. What stands at a place afterwards is what was put there, or what stood there before.

## Contents
- **Growing.** `getElem?_concat_cases`, `filterMap_concat`.
- **Replacing.** `getElem?_set_cases`.
- **What holds at a place.** `exists_getElem?_concat_iff`, `exists_getElem?_set_iff`.
-/

namespace JobWorker

variable {α β : Type} {as : List α} {a b : α} {i j : Nat}

/-- After a list has grown, a place is the last one, with what was added, or one that was there before. -/
theorem getElem?_concat_cases (h : (as ++ [a])[i]? = some b) :
    i = as.length ∧ b = a ∨ i < as.length ∧ as[i]? = some b := by
  rcases Nat.lt_or_ge i as.length with hlt | hge
  · rw [List.getElem?_append_left hlt] at h
    exact .inr ⟨hlt, h⟩
  · rw [List.getElem?_append_right hge, List.getElem?_singleton] at h
    split at h
    · cases h
      exact .inl ⟨by omega, rfl⟩
    · cases h

theorem filterMap_concat (f : α → Option β) (as : List α) (a : α) :
    (as ++ [a]).filterMap f = as.filterMap f ++ (f a).toList := by
  rw [List.filterMap_append, List.filterMap_cons]
  cases f a <;> rfl

/-- After a place was replaced, a place has what was put there, or what it had before. -/
theorem getElem?_set_cases (h : (as.set j a)[i]? = some b) : i = j ∧ b = a ∨ i ≠ j ∧ as[i]? = some b := by
  by_cases hi : i = j
  · subst hi
    rw [List.getElem?_set_self'] at h
    obtain ⟨old, -, hnew⟩ := Option.map_eq_some_iff.mp h
    exact .inl ⟨rfl, hnew.symm⟩
  · rw [List.getElem?_set_ne (Ne.symm hi)] at h
    exact .inr ⟨hi, h⟩

/-- Something that does not hold of what was added holds at a place if and only if it did before. -/
theorem exists_getElem?_concat_iff {P : α → Prop} (ha : ¬P a) :
    (∃ b, (as ++ [a])[i]? = some b ∧ P b) ↔ ∃ b, as[i]? = some b ∧ P b := by
  constructor
  · rintro ⟨b, hb, hP⟩
    rcases getElem?_concat_cases hb with ⟨-, rfl⟩ | ⟨-, hold⟩
    · exact absurd hP ha
    · exact ⟨b, hold, hP⟩
  · rintro ⟨b, hb, hP⟩
    have hlt := (List.getElem?_eq_some_iff.mp hb).1
    exact ⟨b, (List.getElem?_append_left hlt).trans hb, hP⟩

/-- Something holds at a place after one was replaced if it holds of what was put there, and elsewhere as before. -/
theorem exists_getElem?_set_iff {P : α → Prop} (hj : j < as.length) :
    (∃ b, (as.set j a)[i]? = some b ∧ P b) ↔ (i = j ∧ P a) ∨ (i ≠ j ∧ ∃ b, as[i]? = some b ∧ P b) := by
  by_cases hi : i = j
  · subst hi
    simp [List.getElem?_set_self hj]
  · simp [List.getElem?_set_ne (Ne.symm hi), hi]

end JobWorker
