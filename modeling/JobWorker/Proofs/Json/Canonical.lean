import JobWorker.Proofs.Json.Values

/-!
# `JobWorker.Proofs.Json.Canonical` — what reading can give

Whatever text is read, the value is canonical and nests no deeper than was allowed: whole numbers fit 64 bits,
doubles are finite ones of the format, and the members of every object ascend by key, because each one is set in a map.
So a value that was read is one that its own text gives back.

## Contents
- **Inversion.** `of_bind`.
- **Numbers.** `Number.InRange`, `readNumber_inRange`.
- **Maps.** `Members.mem_insert`, `Members.insert_ascending`.
- **Values.** `Value.Fits`, `Reads`, `readDocument_fits`.
-/

namespace JobWorker.Json

/-! ## Inversion -/

/-- What is done in sequence succeeds where each part does. -/
theorem of_bind {ε α β : Type} {x : Except ε α} {f : α → Except ε β} {b : β} (h : (x >>= f) = .ok b) :
    ∃ a, x = .ok a ∧ f a = .ok b := by
  cases x with
  | error e => cases h
  | ok a => exact ⟨a, rfl, h⟩

/-! ## Numbers -/

/-- Whether a number is one that a text can hold: whole within 64 bits, or a finite double. -/
def Number.InRange : Number → Prop
  | .integer n => isWide n = true
  | .double x  => x.IsDouble ∧ x.toRat?.isSome = true

theorem inRange_signedZero (negative : Bool) :
    (Extended.signedZero negative).IsDouble ∧ (Extended.signedZero negative).toRat?.isSome = true := by
  cases negative with
  | false => exact ⟨rfl, rfl⟩
  | true => exact ⟨trivial, rfl⟩

/-- Rounding gives a finite number or an infinity. -/
theorem round_cases (q : Rat) :
    (∃ negative, Binary64.round q = .infinity negative) ∨ (Binary64.round q).toRat?.isSome = true := by
  unfold Binary64.round
  dsimp only
  by_cases hzero : q = 0
  · rw [if_pos hzero]
    exact .inr rfl
  · rw [if_neg hzero]
    generalize (Binary64.significand _ : Rat) * _ = rounded
    by_cases hlarge : ratPow 2 1024 ≤ rounded
    · rw [if_pos hlarge]
      exact .inl ⟨_, rfl⟩
    · rw [if_neg hlarge]
      by_cases hvanished : rounded = 0
      · rw [if_pos hvanished]
        exact .inr (inRange_signedZero _).2
      · rw [if_neg hvanished]
        exact .inr rfl

/-- A double in range is finite. -/
theorem doubleOf?_inRange {negative : Bool} {significand : Nat} {exponent : Int} {x : Extended}
    (h : doubleOf? negative significand exponent = some x) : x.IsDouble ∧ x.toRat?.isSome = true := by
  unfold doubleOf? at h
  dsimp only at h
  split at h
  · rw [← Option.some.inj h]
    exact inRange_signedZero negative
  split at h
  · cases h
  split at h
  · rw [← Option.some.inj h]
    exact inRange_signedZero negative
  split at h
  · cases h
  · rename_i hround
    rw [← Option.some.inj h]
    refine ⟨Binary64.isDouble_round _, (round_cases _).resolve_left ?_⟩
    rintro ⟨infinite, hinfinite⟩
    exact hround infinite hinfinite

theorem finishDouble_inRange {negative : Bool} {whole fraction rest s : List Char} {exponent : Option Int}
    {n : Number} (h : finishDouble negative whole fraction exponent rest = .ok (n, s)) : n.InRange := by
  unfold finishDouble at h
  split at h
  · obtain ⟨rfl, rfl⟩ := Prod.mk.inj (Except.ok.inj h)
    exact inRange_signedZero negative
  · split at h
    · rename_i x hx
      obtain ⟨rfl, rfl⟩ := Prod.mk.inj (Except.ok.inj h)
      exact doubleOf?_inRange hx
    · cases h

theorem readScaled_inRange {negative : Bool} {whole fraction rest s : List Char} {n : Number}
    (h : readScaled negative whole fraction rest = .ok (n, s)) : n.InRange := by
  unfold readScaled at h
  split at h
  · split at h
    · obtain ⟨⟨exponent, r⟩, -, h⟩ := of_bind h
      exact finishDouble_inRange h
    · exact finishDouble_inRange h
  · exact finishDouble_inRange h

theorem finishWhole_inRange {negative : Bool} {whole rest s : List Char} {n : Number}
    (h : finishWhole negative whole rest = .ok (n, s)) : n.InRange := by
  unfold finishWhole at h
  generalize (if negative = true then -(digitsValue whole : Int) else digitsValue whole) = m at h
  dsimp only at h
  split at h
  · obtain ⟨rfl, rfl⟩ := Prod.mk.inj (Except.ok.inj h)
    exact ⟨trivial, rfl⟩
  split at h
  · rename_i hwide
    obtain ⟨rfl, rfl⟩ := Prod.mk.inj (Except.ok.inj h)
    exact hwide
  · exact finishDouble_inRange h

theorem readFraction_inRange {negative : Bool} {whole rest s : List Char} {n : Number}
    (h : readFraction negative whole rest = .ok (n, s)) : n.InRange := by
  rw [readFraction.eq_def] at h
  split at h
  · dsimp only at h
    split at h
    · cases h
    · exact readScaled_inRange h
  · split at h
    · exact readScaled_inRange h
    · exact finishWhole_inRange h
  · exact finishWhole_inRange h

theorem readUnsigned_inRange {negative : Bool} {text s : List Char} {n : Number}
    (h : readUnsigned negative text = .ok (n, s)) : n.InRange := by
  rw [readUnsigned.eq_def] at h
  split at h
  · cases h
  split at h
  · split at h
    · split at h
      · cases h
      · exact readFraction_inRange h
    · exact readFraction_inRange h
  split at h
  · exact readFraction_inRange h
  · cases h

/-- **A number that is read is in range,** however it is written. -/
theorem readNumber_inRange {text s : List Char} {n : Number} (h : readNumber text = .ok (n, s)) : n.InRange := by
  unfold readNumber at h
  split at h <;> exact readUnsigned_inRange h

/-! ## Maps -/

namespace Members

variable {key : String} {value : Value} {members : Members}

/-- A map with a key set has that member and members of the map. -/
theorem mem_insert {m : String × Value} (h : m ∈ members.insert key value) : m = (key, value) ∨ m ∈ members := by
  induction members with
  | nil => exact .inl (List.mem_singleton.mp h)
  | cons first members ih =>
      obtain ⟨k, v⟩ := first
      rw [Members.insert] at h
      split at h
      · exact List.mem_cons.mp h
      split at h
      · exact (List.mem_cons.mp h).imp_right (List.mem_cons_of_mem _)
      · rcases List.mem_cons.mp h with rfl | h
        · exact .inr List.mem_cons_self
        · exact (ih h).imp_right (List.mem_cons_of_mem _)

/-- Setting a key keeps the keys ascending. -/
theorem insert_ascending (hkeys : (members.map (·.1)).Pairwise (· < ·)) :
    ((members.insert key value).map (·.1)).Pairwise (· < ·) := by
  induction members with
  | nil => exact List.pairwise_singleton _ _
  | cons first members ih =>
      obtain ⟨k, v⟩ := first
      obtain ⟨hk, hrest⟩ := List.pairwise_cons.mp hkeys
      rw [Members.insert]
      split
      · rename_i hbefore
        refine List.pairwise_cons.mpr ⟨?_, hkeys⟩
        intro k' hk'
        rcases List.mem_cons.mp hk' with rfl | hk'
        · exact hbefore
        · exact String.lt_trans hbefore (hk k' hk')
      split
      · rename_i hsame
        exact List.pairwise_cons.mpr ⟨hsame ▸ hk, hrest⟩
      · rename_i hbefore hsame
        have hbehind : k < key := Std.lt_of_le_of_ne (String.not_lt.mp hbefore) (Ne.symm hsame)
        refine List.pairwise_cons.mpr ⟨?_, ih hrest⟩
        intro k' hk'
        obtain ⟨m, hm, rfl⟩ := List.mem_map.mp hk'
        rcases mem_insert hm with rfl | hm
        · exact hbehind
        · exact hk m.1 (List.mem_map_of_mem hm)

end Members

/-! ## Values -/

/-- A value as reading gives it: canonical, no deeper than was allowed, and one whose text shows all its numbers. -/
structure Value.Fits (depth : Nat) (v : Value) : Prop where
  canonical : v.Canonical
  depth_le : v.depth ≤ depth
  legible : v.Legible

theorem Value.Fits.list {depth : Nat} {items : List Value} (h : ∀ v ∈ items, v.Fits depth) :
    (Value.list items).Fits (depth + 1) := by
  induction items with
  | nil => exact ⟨trivial, Nat.le_add_left 1 depth, trivial⟩
  | cons v vs ih =>
      obtain ⟨hv, hdepth, hlegible⟩ := h v List.mem_cons_self
      obtain ⟨hvs, hdepths, hlegibles⟩ := ih fun w hw => h w (List.mem_cons_of_mem v hw)
      refine ⟨⟨hv, hvs⟩, ?_, hlegible, hlegibles⟩
      rw [Value.depth] at hdepths ⊢
      rw [Value.itemsDepth]
      omega

theorem Value.Fits.object {depth : Nat} {members : Members} (hkeys : (members.map (·.1)).Pairwise (· < ·))
    (h : ∀ m ∈ members, m.2.Fits depth) : (Value.object members).Fits (depth + 1) := by
  induction members with
  | nil => exact ⟨⟨hkeys, trivial⟩, Nat.le_add_left 1 depth, trivial⟩
  | cons m ms ih =>
      obtain ⟨hm, hdepth, hlegible⟩ := h m List.mem_cons_self
      obtain ⟨⟨-, hms⟩, hdepths, hlegibles⟩ :=
        ih (List.pairwise_cons.mp hkeys).2 fun m' hm' => h m' (List.mem_cons_of_mem m hm')
      refine ⟨⟨hkeys, hm, hms⟩, ?_, hlegible, hlegibles⟩
      rw [Value.depth] at hdepths ⊢
      rw [Value.membersDepth]
      omega

/-- What the reader gives with some fuel, for a value, for items and for members. -/
structure Reads (fuel : Nat) : Prop where
  value : ∀ {depth text v rest}, readValue fuel depth text = .ok (v, rest) → v.Fits depth
  items : ∀ {depth first text vs rest}, readItems fuel depth first text = .ok (vs, rest) → ∀ v ∈ vs, v.Fits depth
  members : ∀ {depth first text ms rest} {done : Members}, (done.map (·.1)).Pairwise (· < ·) →
    (∀ m ∈ done, m.2.Fits depth) → readMembers fuel depth first done text = .ok (ms, rest) →
    (ms.map (·.1)).Pairwise (· < ·) ∧ ∀ m ∈ ms, m.2.Fits depth

theorem Reads.next_value {fuel depth : Nat} {text rest : List Char} {v : Value} (h : Reads fuel)
    (hread : readValue (fuel + 1) depth text = .ok (v, rest)) : v.Fits depth := by
  rw [readValue] at hread
  split at hread
  · cases hread
  · obtain ⟨r, -, hread⟩ := of_bind hread
    obtain ⟨rfl, rfl⟩ := Prod.mk.inj (Except.ok.inj hread)
    exact ⟨trivial, Nat.zero_le depth, trivial⟩
  · obtain ⟨r, -, hread⟩ := of_bind hread
    obtain ⟨rfl, rfl⟩ := Prod.mk.inj (Except.ok.inj hread)
    exact ⟨trivial, Nat.zero_le depth, trivial⟩
  · obtain ⟨r, -, hread⟩ := of_bind hread
    obtain ⟨rfl, rfl⟩ := Prod.mk.inj (Except.ok.inj hread)
    exact ⟨trivial, Nat.zero_le depth, trivial⟩
  · obtain ⟨⟨t, r⟩, -, hread⟩ := of_bind hread
    obtain ⟨rfl, rfl⟩ := Prod.mk.inj (Except.ok.inj hread)
    exact ⟨trivial, Nat.zero_le depth, trivial⟩
  · split at hread
    · cases hread
    · obtain ⟨⟨vs, r⟩, hitems, hread⟩ := of_bind hread
      obtain ⟨rfl, rfl⟩ := Prod.mk.inj (Except.ok.inj hread)
      exact Value.Fits.list (h.items hitems)
  · split at hread
    · cases hread
    · obtain ⟨⟨ms, r⟩, hmembers, hread⟩ := of_bind hread
      obtain ⟨rfl, rfl⟩ := Prod.mk.inj (Except.ok.inj hread)
      obtain ⟨hkeys, hfit⟩ := h.members List.Pairwise.nil (List.forall_mem_nil _) hmembers
      exact Value.Fits.object hkeys hfit
  · split at hread
    · obtain ⟨⟨n, r⟩, hnumber, hread⟩ := of_bind hread
      obtain ⟨rfl, rfl⟩ := Prod.mk.inj (Except.ok.inj hread)
      have hrange := readNumber_inRange hnumber
      cases n with
      | integer n => exact ⟨hrange, Nat.zero_le depth, hrange⟩
      | double x => exact ⟨hrange.2, Nat.zero_le depth, hrange⟩
    · cases hread

theorem Reads.next_items {fuel depth : Nat} {first : Bool} {text rest : List Char} {vs : List Value}
    (h : Reads fuel) (hread : readItems (fuel + 1) depth first text = .ok (vs, rest)) :
    ∀ v ∈ vs, v.Fits depth := by
  rw [readItems] at hread
  obtain ⟨next, -, hread⟩ := of_bind hread
  cases next with
  | closed r =>
      obtain ⟨rfl, rfl⟩ := Prod.mk.inj (Except.ok.inj hread)
      exact List.forall_mem_nil _
  | part item =>
      obtain ⟨⟨v, r⟩, hvalue, hread⟩ := of_bind hread
      obtain ⟨⟨vs, r'⟩, hitems, hread⟩ := of_bind hread
      obtain ⟨rfl, rfl⟩ := Prod.mk.inj (Except.ok.inj hread)
      exact List.forall_mem_cons.mpr ⟨h.value hvalue, h.items hitems⟩

theorem Reads.next_members {fuel depth : Nat} {first : Bool} {text rest : List Char} {ms done : Members}
    (h : Reads fuel) (hkeys : (done.map (·.1)).Pairwise (· < ·)) (hfit : ∀ m ∈ done, m.2.Fits depth)
    (hread : readMembers (fuel + 1) depth first done text = .ok (ms, rest)) :
    (ms.map (·.1)).Pairwise (· < ·) ∧ ∀ m ∈ ms, m.2.Fits depth := by
  rw [readMembers] at hread
  obtain ⟨next, -, hread⟩ := of_bind hread
  cases next with
  | closed r =>
      obtain ⟨rfl, rfl⟩ := Prod.mk.inj (Except.ok.inj hread)
      exact ⟨hkeys, hfit⟩
  | part text =>
      obtain ⟨⟨key, r⟩, -, hread⟩ := of_bind hread
      obtain ⟨r', -, hread⟩ := of_bind hread
      obtain ⟨⟨v, r''⟩, hvalue, hread⟩ := of_bind hread
      refine h.members (Members.insert_ascending hkeys) ?_ hread
      intro m hm
      rcases Members.mem_insert hm with rfl | hm
      · exact h.value hvalue
      · exact hfit m hm

/-- By induction on the fuel: each call of the reader leaves one less of it to the calls inside. -/
theorem reads (fuel : Nat) : Reads fuel := by
  induction fuel with
  | zero =>
      refine ⟨?_, ?_, ?_⟩
      · intro _ _ _ _ h
        cases h
      · intro _ _ _ _ _ h
        cases h
      · intro _ _ _ _ _ _ _ _ h
        cases h
  | succ fuel ih => exact ⟨ih.next_value, ih.next_items, ih.next_members⟩

/-- **A value that is read is canonical and no deeper than was allowed.** -/
theorem readDocument_fits {depth : Nat} {text : List Char} {v : Value} (h : readDocument depth text = .ok v) :
    v.Fits depth := by
  obtain ⟨⟨w, rest⟩, hvalue, h⟩ := of_bind h
  obtain ⟨-, -, h⟩ := of_bind h
  rw [← Except.ok.inj h]
  exact (reads _).value hvalue

end JobWorker.Json
