import JobWorker.Proofs.Json.Doubles

/-!
# `JobWorker.Proofs.Json.Values` — values are read back as they were written

The compact text of a value is read back as that value with the members of its objects in the order of a map, in
front of anything that does not go on with a number, when the nesting allowed reaches the depth of the value. Where
it does not, the text is refused for its depth. Both follow the structure of the value, with one lemma for what the
reader does at the next item of a list and at the next key of an object. All it takes is that numbers are in range:
what is written as `null` is not read back as a number.

## Contents
- **Depth and numbers.** `Value.depth`, `Value.Whole`, `Value.Legible`, `Value.Canonical.legible`,
  `Value.membersLegible_iff`, `Value.membersDepth_le_iff`.
- **Arranging.** `Value.arranged`, `Members.insert_last`, `Value.Canonical.arranged_eq`.
- **Heads.** `StartsValue`, `Value.chars_head`.
- **Steps.** `nextItem_part`, `nextKey_part`, `readItems_part`, `readMembers_part`.
- **Reading back.** `readValue_flat`, `readValue_chars`, `readItems_chars`, `readMembers_chars`.
- **Too deep.** `TooDeep`, `readValue_tooDeep`.
-/

namespace JobWorker.Json

/-! ## Depth and numbers -/

mutual

/-- How deep a value nests: a list or an object lies one above the deepest of its parts, all else is flat. -/
def Value.depth : Value → Nat
  | .list items     => Value.itemsDepth items + 1
  | .object members => Value.membersDepth members + 1
  | _               => 0

/-- The depth of the deepest item. -/
def Value.itemsDepth : List Value → Nat
  | []      => 0
  | v :: vs => max v.depth (Value.itemsDepth vs)

/-- The depth of the deepest member. -/
def Value.membersDepth : List (String × Value) → Nat
  | []           => 0
  | (_, v) :: ms => max v.depth (Value.membersDepth ms)

end

mutual

/-- Whether all numbers in a value are whole: there is no double in it. -/
def Value.Whole : Value → Prop
  | .number (.double _) => False
  | .list items         => Value.AllWhole items
  | .object members     => Value.MembersWhole members
  | _                   => True

/-- All items are without doubles. -/
def Value.AllWhole : List Value → Prop
  | []      => True
  | v :: vs => v.Whole ∧ Value.AllWhole vs

/-- All member values are without doubles. -/
def Value.MembersWhole : List (String × Value) → Prop
  | []           => True
  | (_, v) :: ms => v.Whole ∧ Value.MembersWhole ms

end

mutual

/-- Whether the text of a value shows all its numbers: whole ones fit 64 bits, doubles are finite ones of the format. -/
def Value.Legible : Value → Prop
  | .number (.integer n) => isWide n = true
  | .number (.double x)  => x.IsDouble ∧ x.toRat?.isSome = true
  | .list items          => Value.AllLegible items
  | .object members      => Value.MembersLegible members
  | _                    => True

/-- All items are legible. -/
def Value.AllLegible : List Value → Prop
  | []      => True
  | v :: vs => v.Legible ∧ Value.AllLegible vs

/-- All member values are legible. -/
def Value.MembersLegible : List (String × Value) → Prop
  | []           => True
  | (_, v) :: ms => v.Legible ∧ Value.MembersLegible ms

end

mutual

/-- Without doubles a canonical value is legible. -/
theorem Value.Canonical.legible {v : Value} (h : v.Canonical) (hwhole : v.Whole) : v.Legible := by
  cases v with
  | number n =>
      cases n with
      | integer n => exact h
      | double x => exact hwhole.elim
  | list items => exact Value.AllCanonical.legible h hwhole
  | object members => exact Value.MembersCanonical.legible h.2 hwhole
  | null | bool b | text s => trivial

theorem Value.AllCanonical.legible {items : List Value} (h : Value.AllCanonical items)
    (hwhole : Value.AllWhole items) : Value.AllLegible items := by
  cases items with
  | nil => trivial
  | cons v vs => exact ⟨Value.Canonical.legible h.1 hwhole.1, Value.AllCanonical.legible h.2 hwhole.2⟩

theorem Value.MembersCanonical.legible {members : List (String × Value)} (h : Value.MembersCanonical members)
    (hwhole : Value.MembersWhole members) : Value.MembersLegible members := by
  cases members with
  | nil => trivial
  | cons m ms => exact ⟨Value.Canonical.legible h.1 hwhole.1, Value.MembersCanonical.legible h.2 hwhole.2⟩

end

theorem Value.membersLegible_iff {members : Members} :
    Value.MembersLegible members ↔ ∀ m ∈ members, m.2.Legible := by
  induction members with
  | nil => exact ⟨fun _ => List.forall_mem_nil _, fun _ => trivial⟩
  | cons m ms ih => rw [List.forall_mem_cons, ← ih]; rfl

theorem Value.membersDepth_le_iff {members : Members} {n : Nat} :
    Value.membersDepth members ≤ n ↔ ∀ m ∈ members, m.2.depth ≤ n := by
  induction members with
  | nil => exact ⟨fun _ => List.forall_mem_nil _, fun _ => Nat.zero_le n⟩
  | cons m ms ih => rw [List.forall_mem_cons, ← ih]; exact Nat.max_le

/-! ## Arranging -/

mutual

/-- A value with the members of each object set in a map, one after another. -/
def Value.arranged : Value → Value
  | .list items     => .list (Value.arrangedItems items)
  | .object members => .object (Value.arrangedMembers [] members)
  | v               => v

/-- Each item arranged. -/
def Value.arrangedItems : List Value → List Value
  | []      => []
  | v :: vs => v.arranged :: Value.arrangedItems vs

/-- Members set in the map `done`, each value arranged. -/
def Value.arrangedMembers (done : Members) : List (String × Value) → Members
  | []             => done
  | (key, v) :: ms => Value.arrangedMembers (done.insert key v.arranged) ms

end

/-- A key behind all others is set at the end. -/
theorem Members.insert_last {done : Members} {key : String} (value : Value)
    (hlast : ∀ k ∈ done.map (·.1), k < key) : done.insert key value = done ++ [(key, value)] := by
  induction done with
  | nil => rfl
  | cons m done ih =>
      obtain ⟨k, v⟩ := m
      have hk : k < key := hlast k List.mem_cons_self
      have hne : key ≠ k := fun h => String.lt_irrefl k (h ▸ hk)
      rw [Members.insert, if_neg (fun h => String.lt_asymm hk h), if_neg hne,
        ih (fun k' hk' => hlast k' (List.mem_cons_of_mem _ hk')), List.cons_append]

/-- The keys before a member are smaller than its own. -/
theorem keys_before {done ms : Members} {key : String} {v : Value}
    (hkeys : ((done ++ (key, v) :: ms).map (·.1)).Pairwise (· < ·)) : ∀ k ∈ done.map (·.1), k < key := by
  intro k hk
  rw [List.map_append] at hkeys
  exact (List.pairwise_append.mp hkeys).2.2 k hk key List.mem_cons_self

mutual

/-- A canonical value is arranged as it is. -/
theorem Value.Canonical.arranged_eq {v : Value} (h : v.Canonical) : v.arranged = v := by
  cases v with
  | list items => rw [Value.arranged, Value.AllCanonical.arranged_eq h]
  | object members => rw [Value.arranged, Value.MembersCanonical.arranged_eq [] h.1 h.2, List.nil_append]
  | null | bool b | number n | text s => rfl

theorem Value.AllCanonical.arranged_eq {items : List Value} (h : Value.AllCanonical items) :
    Value.arrangedItems items = items := by
  cases items with
  | nil => rfl
  | cons v vs => rw [Value.arrangedItems, Value.Canonical.arranged_eq h.1, Value.AllCanonical.arranged_eq h.2]

theorem Value.MembersCanonical.arranged_eq (done : Members) {members : List (String × Value)}
    (hkeys : ((done ++ members).map (·.1)).Pairwise (· < ·)) (h : Value.MembersCanonical members) :
    Value.arrangedMembers done members = done ++ members := by
  cases members with
  | nil => rw [Value.arrangedMembers, List.append_nil]
  | cons m ms =>
      obtain ⟨key, v⟩ := m
      have hsplit : done ++ (key, v) :: ms = done ++ [(key, v)] ++ ms := by simp
      rw [Value.arrangedMembers, Value.Canonical.arranged_eq h.1, Members.insert_last v (keys_before hkeys), hsplit]
      exact Value.MembersCanonical.arranged_eq _ (hsplit ▸ hkeys) h.2

end

/-! ## Heads -/

/-- Whether a character can begin a value: it is no blank and closes no list. -/
def StartsValue (c : Char) : Prop := isGrammarBlank c = false ∧ c ≠ ']'

theorem startsValue_of_isDigit {c : Char} (hc : c.isDigit = true) : StartsValue c := by
  constructor
  · simp only [isGrammarBlank, Bool.or_eq_false_iff, beq_eq_false_iff_ne, ne_eq]
    refine ⟨⟨⟨?_, ?_⟩, ?_⟩, ?_⟩ <;> (rintro rfl; exact absurd hc (by decide))
  · rintro rfl
    exact absurd hc (by decide)

/-- A number begins with its sign or with a digit. -/
theorem startsValue_of_number {c : Char} (hc : c = '-' ∨ c.isDigit = true) : StartsValue c := by
  rcases hc with rfl | hc
  · exact ⟨by decide, by decide⟩
  · exact startsValue_of_isDigit hc

/-- The first character of a whole number. -/
theorem integerChars_head (n : Int) : ∃ c r, integerChars n = c :: r ∧ (c = '-' ∨ c.isDigit = true) := by
  unfold integerChars
  split
  · exact ⟨_, _, rfl, .inl rfl⟩
  · obtain ⟨d, ds, hdigits, -⟩ := toDigits_split n.natAbs
    have hd : d ∈ Nat.toDigits 10 n.natAbs := hdigits ▸ List.mem_cons_self
    exact ⟨d, ds, hdigits, .inr (isDigit_of_mem_toDigits hd)⟩

/-- The first character of a value. -/
theorem Value.chars_head (v : Value) (hlegible : v.Legible) : ∃ c r, v.chars = c :: r ∧ StartsValue c := by
  cases v with
  | null => exact ⟨_, _, rfl, by decide, by decide⟩
  | bool b => cases b <;> exact ⟨_, _, rfl, by decide, by decide⟩
  | number n =>
      cases n with
      | integer n =>
          obtain ⟨c, r, hchars, hc⟩ := integerChars_head n
          exact ⟨c, r, hchars, startsValue_of_number hc⟩
      | double x =>
          obtain ⟨c, r, hchars, hc⟩ := doubleChars_head hlegible.1 hlegible.2
          exact ⟨c, r, hchars, startsValue_of_number hc⟩
  | text s => exact ⟨_, _, rfl, by decide, by decide⟩
  | list items => exact ⟨_, _, rfl, by decide, by decide⟩
  | object members => exact ⟨_, _, rfl, by decide, by decide⟩

theorem Value.chars_length_pos (v : Value) (hlegible : v.Legible) : 0 < v.chars.length := by
  obtain ⟨c, r, hchars, -⟩ := v.chars_head hlegible
  rw [hchars, List.length_cons]
  exact Nat.succ_pos _

/-! ## Steps -/

/-- What stands before a part: a comma before all but the first. -/
def leadChars (first : Bool) : List Char := if first then [] else [',']

/-- A list goes on with the item that stands there. -/
theorem nextItem_part (first : Bool) {c : Char} (s : List Char) (hc : StartsValue c) :
    nextItem first (leadChars first ++ c :: s) = .ok (.part (c :: s)) := by
  obtain ⟨hblank, hclose⟩ := hc
  cases first with
  | true =>
      show nextItem true (c :: s) = _
      rw [nextItem, skipBlank_cons hblank]
      split
      · rename_i h; cases h
      · rename_i h; exact absurd (List.cons.inj h).1 hclose
      · rename_i h; rw [if_pos rfl, ← h]
      · rfl
  | false =>
      show nextItem false (',' :: c :: s) = _
      rw [nextItem, skipBlank_cons (by decide)]
      simp only [skipBlank_cons hblank, Bool.false_eq_true, if_false]
      split
      · rename_i h; cases h
      · rename_i h; exact absurd (List.cons.inj h).1 hclose
      · rfl

/-- An object goes on with the key that stands there. -/
theorem nextKey_part (first : Bool) (s : List Char) :
    nextKey first (leadChars first ++ '"' :: s) = .ok (.part s) := by
  cases first with
  | true =>
      show nextKey true ('"' :: s) = _
      rw [nextKey, skipBlank_cons (by decide)]
      rfl
  | false =>
      show nextKey false (',' :: '"' :: s) = _
      rw [nextKey, skipBlank_cons (by decide)]
      show openKey (skipBlank ('"' :: s)) = _
      rw [skipBlank_cons (by decide)]
      rfl

/-- Behind an item the list goes on without it. -/
theorem readItems_part (fuel depth : Nat) (first : Bool) {c : Char} (s : List Char) (hc : StartsValue c) :
    readItems (fuel + 1) depth first (leadChars first ++ c :: s) = (do
      let (v, rest) ← readValue fuel depth (c :: s)
      let (vs, rest) ← readItems fuel depth false rest
      return (v :: vs, rest)) := by
  rw [readItems, nextItem_part first s hc]
  rfl

/-- Behind a member the object goes on with its value set in the map. -/
theorem readMembers_part (fuel depth : Nat) (first : Bool) (done : Members) (key : String) (s : List Char) :
    readMembers (fuel + 1) depth first done (leadChars first ++ quotedChars key ++ ':' :: s) = (do
      let (v, rest) ← readValue fuel depth s
      readMembers fuel depth false (done.insert key v) rest) := by
  have htext : leadChars first ++ quotedChars key ++ ':' :: s =
      leadChars first ++ '"' :: (escapeChars key.toList ++ '"' :: ':' :: s) := by
    simp [quotedChars]
  have hcolon : readColon (':' :: s) = .ok s := by
    rw [readColon, skipBlank_cons (by decide)]
    rfl
  simp only [readMembers, htext, nextKey_part, readString_quoted, hcolon, bind, Except.bind]

/-- A number is read where one begins. -/
theorem readValue_number (fuel depth : Nat) {c : Char} (s : List Char) (hc : c = '-' ∨ c.isDigit = true) :
    readValue (fuel + 1) depth (c :: s) = (do
      let (n, rest) ← readNumber (c :: s)
      return (.number n, rest)) := by
  have hblank := (startsValue_of_number hc).1
  -- no other value begins with a digit or a sign
  have hother : ∀ d ∈ ['n', 't', 'f', '"', '[', '\x7b'], c ≠ d := by
    rintro d hd rfl
    have hneither : (['n', 't', 'f', '"', '[', '\x7b'].all fun d => !(d == '-' || d.isDigit)) = true := by decide
    have hnot := List.all_eq_true.mp hneither c hd
    rcases hc with rfl | hc
    · exact absurd hnot (by decide)
    · rw [hc, Bool.or_true] at hnot
      cases hnot
  rw [readValue, skipBlank_cons hblank]
  split
  case h_1 heq => exact nomatch heq
  case h_8 heq =>
    obtain ⟨rfl, rfl⟩ := List.cons.inj heq
    exact if_pos hc
  all_goals
    rename_i heq
    exact absurd (List.cons.inj heq).1 (hother _ (by decide))

theorem readValue_list (fuel depth : Nat) (s : List Char) :
    readValue (fuel + 1) (depth + 1) ('[' :: s) = (do
      let (items, rest) ← readItems fuel depth true s
      return (.list items, rest)) := by
  rw [readValue, skipBlank_cons (by decide)]
  rfl

theorem readValue_object (fuel depth : Nat) (s : List Char) :
    readValue (fuel + 1) (depth + 1) ('\x7b' :: s) = (do
      let (members, rest) ← readMembers fuel depth true [] s
      return (.object members, rest)) := by
  rw [readValue, skipBlank_cons (by decide)]
  rfl

theorem readItems_close (fuel depth : Nat) (first : Bool) (s : List Char) :
    readItems (fuel + 1) depth first (']' :: s) = .ok ([], s) := by
  rw [readItems, nextItem, skipBlank_cons (by decide)]
  rfl

theorem readMembers_close (fuel depth : Nat) (first : Bool) (done : Members) (s : List Char) :
    readMembers (fuel + 1) depth first done ('\x7d' :: s) = .ok (done, s) := by
  rw [readMembers, nextKey, skipBlank_cons (by decide)]
  rfl

/-! ## Reading back -/

theorem itemsChars_cons (first : Bool) (v : Value) (vs : List Value) (s : List Char) :
    Value.itemsChars (leadChars first) (v :: vs) ++ s =
      leadChars first ++ (v.chars ++ (Value.itemsChars (leadChars false) vs ++ s)) := by
  rw [Value.itemsChars, List.append_assoc, List.append_assoc]
  rfl

theorem membersChars_cons (first : Bool) (key : String) (v : Value) (ms : Members) (s : List Char) :
    Value.membersChars (leadChars first) ((key, v) :: ms) ++ s =
      leadChars first ++ quotedChars key ++ ':' :: (v.chars ++ (Value.membersChars (leadChars false) ms ++ s)) := by
  simp [Value.membersChars, leadChars]

theorem length_itemsChars_cons (first : Bool) (v : Value) (vs : List Value) (hlegible : v.Legible) :
    0 < v.chars.length ∧ v.chars.length + (Value.itemsChars (leadChars false) vs).length ≤
      (Value.itemsChars (leadChars first) (v :: vs)).length := by
  refine ⟨v.chars_length_pos hlegible, ?_⟩
  have hcons := congrArg List.length (itemsChars_cons first v vs [])
  simp only [List.length_append, List.length_nil] at hcons
  omega

theorem length_membersChars_cons (first : Bool) (key : String) (v : Value) (ms : Members) (hlegible : v.Legible) :
    0 < v.chars.length ∧ v.chars.length + (Value.membersChars (leadChars false) ms).length ≤
      (Value.membersChars (leadChars first) ((key, v) :: ms)).length := by
  refine ⟨v.chars_length_pos hlegible, ?_⟩
  have hcons := congrArg List.length (membersChars_cons first key v ms [])
  simp only [List.length_append, List.length_cons, List.length_nil] at hcons
  omega

/-- What follows an item ends a number. -/
theorem endsNumber_items (vs : List Value) (s : List Char) :
    EndsNumber (Value.itemsChars (leadChars false) vs ++ ']' :: s) := by
  cases vs with
  | nil => exact EndsNumber.cons (by decide)
  | cons v vs => exact EndsNumber.cons (by decide)

/-- What follows a member ends a number. -/
theorem endsNumber_members (ms : Members) (s : List Char) :
    EndsNumber (Value.membersChars (leadChars false) ms ++ '\x7d' :: s) := by
  cases ms with
  | nil => exact EndsNumber.cons (by decide)
  | cons m ms => exact EndsNumber.cons (by decide)

/-- A value that is neither a list nor an object is read back by one step. -/
theorem readValue_flat {v : Value} (fuel depth : Nat) {rest : List Char} (hlegible : v.Legible) (hflat : v.depth = 0)
    (hrest : EndsNumber rest) : readValue (fuel + 1) depth (v.chars ++ rest) = .ok (v, rest) := by
  cases v with
  | null => rfl
  | bool b => cases b <;> rfl
  | number n =>
      cases n with
      | integer n =>
          obtain ⟨c, r, hchars, hc⟩ := integerChars_head n
          show readValue (fuel + 1) depth (integerChars n ++ rest) = _
          have hread := readNumber_integerChars hlegible hrest
          rw [hchars, List.cons_append] at hread ⊢
          rw [readValue_number fuel depth (r ++ rest) hc, hread]
          rfl
      | double x =>
          obtain ⟨c, r, hchars, hc⟩ := doubleChars_head hlegible.1 hlegible.2
          show readValue (fuel + 1) depth (doubleChars x ++ rest) = _
          have hread := readNumber_doubleChars hlegible.1 hlegible.2 hrest
          rw [hchars, List.cons_append] at hread ⊢
          rw [readValue_number fuel depth (r ++ rest) hc, hread]
          rfl
  | text s =>
      show readValue (fuel + 1) depth (quotedChars s ++ rest) = _
      have htext : quotedChars s ++ rest = '"' :: (escapeChars s.toList ++ '"' :: rest) := by simp [quotedChars]
      rw [htext, readValue, skipBlank_cons (by decide)]
      show (readString _ >>= fun read => pure (Value.text read.1, read.2)) = _
      rw [readString_quoted]
      rfl
  | list items => exact absurd hflat (Nat.succ_ne_zero _)
  | object members => exact absurd hflat (Nat.succ_ne_zero _)

mutual

/-- **A value is read back as it was written,** its members arranged, where the nesting allowed reaches its depth. -/
theorem readValue_chars (v : Value) (fuel depth : Nat) {rest : List Char} (hlegible : v.Legible)
    (hdepth : v.depth ≤ depth) (hfuel : 2 * v.chars.length ≤ fuel) (hrest : EndsNumber rest) :
    readValue fuel depth (v.chars ++ rest) = .ok (v.arranged, rest) := by
  have hpos := v.chars_length_pos hlegible
  obtain ⟨fuel, rfl⟩ : ∃ n, fuel = n + 1 := ⟨fuel - 1, by omega⟩
  cases v with
  | null | bool b | number n | text s => exact readValue_flat fuel depth hlegible rfl hrest
  | list items =>
      obtain ⟨depth, rfl⟩ : ∃ n, depth = n + 1 := ⟨depth - 1, by rw [Value.depth] at hdepth; omega⟩
      have hchars : (Value.list items).chars = '[' :: (Value.itemsChars (leadChars true) items ++ [']']) := rfl
      have hlength : (Value.itemsChars (leadChars true) items).length + 2 = (Value.list items).chars.length := by
        rw [hchars, List.length_cons, List.length_append]; rfl
      have hitems := readItems_chars items fuel depth true rest hlegible
        (Nat.le_of_succ_le_succ hdepth) (by omega)
      rw [hchars, List.cons_append, List.append_assoc, readValue_list, List.singleton_append, hitems]
      rfl
  | object members =>
      obtain ⟨depth, rfl⟩ : ∃ n, depth = n + 1 := ⟨depth - 1, by rw [Value.depth] at hdepth; omega⟩
      have hchars : (Value.object members).chars =
          '\x7b' :: (Value.membersChars (leadChars true) members ++ ['\x7d']) := rfl
      have hlength : (Value.membersChars (leadChars true) members).length + 2 =
          (Value.object members).chars.length := by
        rw [hchars, List.length_cons, List.length_append]; rfl
      have hmembers := readMembers_chars members fuel depth true [] rest hlegible
        (Nat.le_of_succ_le_succ hdepth) (by omega)
      rw [hchars, List.cons_append, List.append_assoc, readValue_object, List.singleton_append, hmembers]
      rfl

/-- Items are read back up to the mark that closes their list. -/
theorem readItems_chars (items : List Value) (fuel depth : Nat) (first : Bool) (rest : List Char)
    (hlegible : Value.AllLegible items) (hdepth : Value.itemsDepth items ≤ depth)
    (hfuel : 2 * (Value.itemsChars (leadChars first) items).length < fuel) :
    readItems fuel depth first (Value.itemsChars (leadChars first) items ++ ']' :: rest) =
      .ok (Value.arrangedItems items, rest) := by
  obtain ⟨fuel, rfl⟩ : ∃ n, fuel = n + 1 := ⟨fuel - 1, by omega⟩
  cases items with
  | nil => exact readItems_close fuel depth first rest
  | cons v vs =>
      have hlength := length_itemsChars_cons first v vs hlegible.1
      rw [Value.itemsDepth] at hdepth
      have hv := readValue_chars v fuel depth hlegible.1 (by omega) (by omega)
        (endsNumber_items vs rest)
      have hvs := readItems_chars vs fuel depth false rest hlegible.2 (by omega) (by omega)
      obtain ⟨c, r, hchars, hc⟩ := v.chars_head hlegible.1
      rw [itemsChars_cons, hchars, List.cons_append, readItems_part fuel depth first _ hc, ← List.cons_append,
        ← hchars, hv]
      show (do
        let (vs, rest) ← readItems fuel depth false (Value.itemsChars (leadChars false) vs ++ ']' :: rest)
        return (v.arranged :: vs, rest)) = _
      rw [hvs]
      rfl

/-- Members are read back behind those read so far, up to the mark that closes their object. -/
theorem readMembers_chars (members : List (String × Value)) (fuel depth : Nat) (first : Bool) (done : Members)
    (rest : List Char) (hlegible : Value.MembersLegible members) (hdepth : Value.membersDepth members ≤ depth)
    (hfuel : 2 * (Value.membersChars (leadChars first) members).length < fuel) :
    readMembers fuel depth first done (Value.membersChars (leadChars first) members ++ '\x7d' :: rest) =
      .ok (Value.arrangedMembers done members, rest) := by
  obtain ⟨fuel, rfl⟩ : ∃ n, fuel = n + 1 := ⟨fuel - 1, by omega⟩
  cases members with
  | nil => exact readMembers_close fuel depth first done rest
  | cons m ms =>
      obtain ⟨key, v⟩ := m
      have hlength := length_membersChars_cons first key v ms hlegible.1
      rw [Value.membersDepth] at hdepth
      have hv := readValue_chars v fuel depth hlegible.1 (by omega) (by omega)
        (endsNumber_members ms rest)
      have hms := readMembers_chars ms fuel depth false (done.insert key v.arranged) rest hlegible.2 (by omega)
        (by omega)
      rw [membersChars_cons, readMembers_part, hv]
      exact hms

end

/-! ## Too deep -/

/-- A text was refused for its depth. -/
def TooDeep {α : Type} (read : Except Fault α) : Prop :=
  ∃ fault, read = .error fault ∧ fault.cause = .grammar .tooDeep

theorem TooDeep.bind {α β : Type} {read : Except Fault α} (f : α → Except Fault β) (h : TooDeep read) :
    TooDeep (read >>= f) := by
  obtain ⟨fault, rfl, hcause⟩ := h
  exact ⟨fault, rfl, hcause⟩

theorem readValue_list_zero (fuel : Nat) (s : List Char) : TooDeep (readValue (fuel + 1) 0 ('[' :: s)) := by
  rw [readValue, skipBlank_cons (by decide)]
  exact ⟨_, rfl, rfl⟩

theorem readValue_object_zero (fuel : Nat) (s : List Char) : TooDeep (readValue (fuel + 1) 0 ('\x7b' :: s)) := by
  rw [readValue, skipBlank_cons (by decide)]
  exact ⟨_, rfl, rfl⟩

mutual

/-- **A value is refused for its depth** where the nesting allowed does not reach it. -/
theorem readValue_tooDeep (v : Value) (fuel depth : Nat) (rest : List Char) (hlegible : v.Legible)
    (hdepth : depth < v.depth) (hfuel : 2 * v.chars.length ≤ fuel) :
    TooDeep (readValue fuel depth (v.chars ++ rest)) := by
  have hpos := v.chars_length_pos hlegible
  obtain ⟨fuel, rfl⟩ : ∃ n, fuel = n + 1 := ⟨fuel - 1, by omega⟩
  cases v with
  | list items =>
      have hchars : (Value.list items).chars = '[' :: (Value.itemsChars (leadChars true) items ++ [']']) := rfl
      have hlength : (Value.itemsChars (leadChars true) items).length + 2 = (Value.list items).chars.length := by
        rw [hchars, List.length_cons, List.length_append]; rfl
      rw [hchars, List.cons_append, List.append_assoc, List.singleton_append]
      cases depth with
      | zero => exact readValue_list_zero fuel _
      | succ depth =>
          rw [readValue_list]
          refine TooDeep.bind _ ?_
          exact readItems_tooDeep items fuel depth true rest hlegible (Nat.lt_of_succ_lt_succ hdepth) (by omega)
  | object members =>
      have hchars : (Value.object members).chars =
          '\x7b' :: (Value.membersChars (leadChars true) members ++ ['\x7d']) := rfl
      have hlength : (Value.membersChars (leadChars true) members).length + 2 =
          (Value.object members).chars.length := by
        rw [hchars, List.length_cons, List.length_append]; rfl
      rw [hchars, List.cons_append, List.append_assoc, List.singleton_append]
      cases depth with
      | zero => exact readValue_object_zero fuel _
      | succ depth =>
          rw [readValue_object]
          refine TooDeep.bind _ ?_
          exact readMembers_tooDeep members fuel depth true [] rest hlegible
            (Nat.lt_of_succ_lt_succ hdepth) (by omega)
  | null => exact absurd hdepth (Nat.not_lt_zero depth)
  | bool b => exact absurd hdepth (Nat.not_lt_zero depth)
  | number n => exact absurd hdepth (Nat.not_lt_zero depth)
  | text s => exact absurd hdepth (Nat.not_lt_zero depth)

/-- Items are refused at the first one that is too deep. -/
theorem readItems_tooDeep (items : List Value) (fuel depth : Nat) (first : Bool) (rest : List Char)
    (hlegible : Value.AllLegible items) (hdepth : depth < Value.itemsDepth items)
    (hfuel : 2 * (Value.itemsChars (leadChars first) items).length < fuel) :
    TooDeep (readItems fuel depth first (Value.itemsChars (leadChars first) items ++ ']' :: rest)) := by
  obtain ⟨fuel, rfl⟩ : ∃ n, fuel = n + 1 := ⟨fuel - 1, by omega⟩
  cases items with
  | nil => exact absurd hdepth (Nat.not_lt_zero depth)
  | cons v vs =>
      have hlength := length_itemsChars_cons first v vs hlegible.1
      rw [Value.itemsDepth] at hdepth
      obtain ⟨c, r, hchars, hc⟩ := v.chars_head hlegible.1
      rw [itemsChars_cons, hchars, List.cons_append, readItems_part fuel depth first _ hc, ← List.cons_append,
        ← hchars]
      by_cases hv : depth < v.depth
      · exact TooDeep.bind _ (readValue_tooDeep v fuel depth _ hlegible.1 hv (by omega))
      · rw [readValue_chars v fuel depth hlegible.1 (Nat.le_of_not_lt hv) (by omega)
          (endsNumber_items vs rest)]
        have hvs : TooDeep (readItems fuel depth false (Value.itemsChars (leadChars false) vs ++ ']' :: rest)) :=
          readItems_tooDeep vs fuel depth false rest hlegible.2 (by omega) (by omega)
        exact hvs.bind fun read => return (v.arranged :: read.1, read.2)

/-- Members are refused at the first one that is too deep. -/
theorem readMembers_tooDeep (members : List (String × Value)) (fuel depth : Nat) (first : Bool) (done : Members)
    (rest : List Char) (hlegible : Value.MembersLegible members) (hdepth : depth < Value.membersDepth members)
    (hfuel : 2 * (Value.membersChars (leadChars first) members).length < fuel) :
    TooDeep (readMembers fuel depth first done (Value.membersChars (leadChars first) members ++ '\x7d' :: rest)) := by
  obtain ⟨fuel, rfl⟩ : ∃ n, fuel = n + 1 := ⟨fuel - 1, by omega⟩
  cases members with
  | nil => exact absurd hdepth (Nat.not_lt_zero depth)
  | cons m ms =>
      obtain ⟨key, v⟩ := m
      have hlength := length_membersChars_cons first key v ms hlegible.1
      rw [Value.membersDepth] at hdepth
      rw [membersChars_cons, readMembers_part]
      by_cases hv : depth < v.depth
      · exact TooDeep.bind _ (readValue_tooDeep v fuel depth _ hlegible.1 hv (by omega))
      · rw [readValue_chars v fuel depth hlegible.1 (Nat.le_of_not_lt hv) (by omega)
          (endsNumber_members ms rest)]
        exact readMembers_tooDeep ms fuel depth false (done.insert key v.arranged) rest hlegible.2 (by omega)
          (by omega)

end

end JobWorker.Json
