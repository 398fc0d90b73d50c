import JobWorker.Json.RecordReader
import JobWorker.Proofs.Json.Records

/-!
# `JobWorker.Proofs.Json.RecordReader` — records are read straight from their texts

Straight from a text a part is read as what the decoder makes of the value that the text shows, or with the same
complaint. From plain values this carries over to the lists of such parts, to the fields that take them, and to the
records whose members all find a field that takes them: members enter a record in the order of the text, and no key
may stand twice.

## Contents
- **Parts.** `Follows`, `plainValue_flat`, `follows_plain`.
- **Lists.** `readItemsBy_gives`, `readItemsBy_refuses`, `follows_list`.
- **Fields.** `Field.Takes`, `Field.takes_of`, `Field.takes_listOf`.
- **Members.** `Record.Takes`, `readMembersInto_gives`, `readMembersInto_refuses`.
- **Records.** `Record.follows`, `Field.takes_recordOf`, `Record.parse_render`, `Record.parse_without`,
  `Record.parse_refuses`.
-/

namespace JobWorker.Json

variable {ρ α : Type} {record : Record ρ} {members : Members} {r r' : ρ} {rest s : List Char} {v : Value}

/-! ## Parts -/

/-- Whether a reader makes of the text of a value what a decoder makes of the value: the same part, with all that
follows left, or the same complaint. -/
structure Follows (read : PartReader α) (decode : Decoder α) (v : Value) : Prop where
  gives : ∀ {rest a}, EndsNumber rest → decode v = .ok a → read (v.chars ++ rest) = .ok (a, rest)
  refuses : ∀ {rest e}, EndsNumber rest → decode v = .error e →
    ∃ fault, read (v.chars ++ rest) = .error fault ∧ fault.cause = .shape e

/-- The text of a value that is neither a list nor an object does not begin like one. -/
theorem Value.chars_head_flat (hlegible : v.Legible) (hflat : v.depth = 0) :
    ∃ c s, v.chars = c :: s ∧ isGrammarBlank c = false ∧ c ≠ '[' ∧ c ≠ '\x7b' := by
  have hnumber : ∀ {c : Char}, c = '-' ∨ c.isDigit = true → isGrammarBlank c = false ∧ c ≠ '[' ∧ c ≠ '\x7b' := by
    intro c hc
    refine ⟨(startsValue_of_number hc).1, ?_, ?_⟩
    · rintro rfl
      exact absurd hc (by decide)
    · rintro rfl
      exact absurd hc (by decide)
  cases v with
  | null => exact ⟨_, _, rfl, by decide, by decide, by decide⟩
  | bool b => cases b <;> exact ⟨_, _, rfl, by decide, by decide, by decide⟩
  | text s => exact ⟨_, _, rfl, by decide, by decide, by decide⟩
  | number n =>
      cases n with
      | integer n =>
          obtain ⟨c, s, hchars, hc⟩ := integerChars_head n
          exact ⟨c, s, hchars, hnumber hc⟩
      | double x =>
          obtain ⟨c, s, hchars, hc⟩ := doubleChars_head hlegible.1 hlegible.2
          exact ⟨c, s, hchars, hnumber hc⟩
  | list items => exact absurd hflat (Nat.succ_ne_zero _)
  | object members => exact absurd hflat (Nat.succ_ne_zero _)

theorem plainValue_flat (hlegible : v.Legible) (hflat : v.depth = 0) (hrest : EndsNumber rest) :
    plainValue (v.chars ++ rest) = .ok (v, rest) := by
  obtain ⟨c, s, hchars, hblank, hlist, hobject⟩ := Value.chars_head_flat hlegible hflat
  have hread := readValue_flat (v.chars ++ rest).length 0 hlegible hflat hrest
  rw [hchars, List.cons_append] at hread ⊢
  rw [plainValue, skipBlank_cons hblank]
  split
  · rename_i h
    exact absurd (List.cons.inj h).1 hlist
  · rename_i h
    exact absurd (List.cons.inj h).1 hobject
  · exact hread

theorem follows_plain (decode : Decoder α) (hlegible : v.Legible) (hflat : v.depth = 0) :
    Follows (readPlain decode) decode v where
  gives hrest hdecode := by
    simp only [readPlain, plainValue_flat hlegible hflat hrest, hdecode, bind, Except.bind]
    rfl
  refuses hrest hdecode := by
    simp only [readPlain, plainValue_flat hlegible hflat hrest, hdecode, bind, Except.bind]
    exact ⟨_, rfl, rfl⟩

/-! ## Lists -/

section Lists

variable {read : PartReader α} {decode : Decoder α} {items : List Value} {parts : List α}

/-- An item in front of others: it is read, and the others behind it. -/
theorem readItemsBy_part (fuel : Nat) (first : Bool) (vs : List Value) (s : List Char) (hlegible : v.Legible) :
    readItemsBy read (fuel + 1) first (Value.itemsChars (leadChars first) (v :: vs) ++ s) = (do
      let (a, rest) ← read (v.chars ++ (Value.itemsChars (leadChars false) vs ++ s))
      let (as, rest) ← readItemsBy read fuel false rest
      return (a :: as, rest)) := by
  obtain ⟨c, r, hchars, hc⟩ := v.chars_head hlegible
  rw [itemsChars_cons, hchars, List.cons_append, readItemsBy, nextItem_part first _ hc]
  rfl

/-- Items are read one by one up to the mark that closes their list. -/
theorem readItemsBy_gives {fuel : Nat} {first : Bool} (hfuel : items.length < fuel)
    (hitems : ∀ v ∈ items, v.Legible ∧ Follows read decode v) (hdecode : items.mapM decode = .ok parts) :
    readItemsBy read fuel first (Value.itemsChars (leadChars first) items ++ ']' :: rest) = .ok (parts, rest) := by
  induction items generalizing fuel first parts with
  | nil =>
      obtain ⟨fuel, rfl⟩ : ∃ n, fuel = n + 1 := ⟨fuel - 1, by omega⟩
      cases hdecode
      rw [Value.itemsChars, List.nil_append, readItemsBy, nextItem, skipBlank_cons (by decide)]
      rfl
  | cons v vs ih =>
      obtain ⟨fuel, rfl⟩ : ∃ n, fuel = n + 1 := ⟨fuel - 1, by omega⟩
      obtain ⟨hlegible, hfollows⟩ := hitems v List.mem_cons_self
      rw [List.mapM_cons] at hdecode
      obtain ⟨a, ha, hdecode⟩ := of_bind hdecode
      obtain ⟨as, has, hdecode⟩ := of_bind hdecode
      cases hdecode
      have hvs : readItemsBy read fuel false (Value.itemsChars (leadChars false) vs ++ ']' :: rest) = .ok (as, rest) :=
        ih (Nat.lt_of_succ_lt_succ hfuel) (fun v hv => hitems v (List.mem_cons_of_mem _ hv)) has
      rw [readItemsBy_part fuel first vs _ hlegible, hfollows.gives (endsNumber_items vs rest) ha]
      simp only [bind, Except.bind, hvs]
      rfl

/-- The first item that is not what is asked for is complained about. -/
theorem readItemsBy_refuses {fuel : Nat} {first : Bool} {e : DecodeError} (hfuel : items.length < fuel)
    (hitems : ∀ v ∈ items, v.Legible ∧ Follows read decode v) (hdecode : items.mapM decode = .error e) :
    ∃ fault, readItemsBy read fuel first (Value.itemsChars (leadChars first) items ++ ']' :: rest) = .error fault ∧
      fault.cause = .shape e := by
  induction items generalizing fuel first with
  | nil => cases hdecode
  | cons v vs ih =>
      obtain ⟨fuel, rfl⟩ : ∃ n, fuel = n + 1 := ⟨fuel - 1, by omega⟩
      obtain ⟨hlegible, hfollows⟩ := hitems v List.mem_cons_self
      have hends := endsNumber_items vs rest
      rw [List.mapM_cons] at hdecode
      rw [readItemsBy_part fuel first vs _ hlegible]
      -- either this item is refused, or it is read and a later one is refused
      cases ha : decode v with
      | error e' =>
          rw [ha] at hdecode
          cases hdecode
          obtain ⟨fault, hread, hcause⟩ := hfollows.refuses hends ha
          rw [hread]
          exact ⟨fault, rfl, hcause⟩
      | ok a =>
          rw [ha] at hdecode
          cases has : vs.mapM decode with
          | ok as => rw [has] at hdecode; cases hdecode
          | error e' =>
              rw [has] at hdecode
              cases hdecode
              obtain ⟨fault, hread, hcause⟩ : ∃ fault, readItemsBy read fuel false
                  (Value.itemsChars (leadChars false) vs ++ ']' :: rest) = .error fault ∧ fault.cause = .shape e :=
                ih (Nat.lt_of_succ_lt_succ hfuel) (fun v hv => hitems v (List.mem_cons_of_mem _ hv)) has
              simp only [hfollows.gives hends ha, bind, Except.bind, hread]
              exact ⟨fault, rfl, hcause⟩

/-- Each item takes at least one character. -/
theorem length_le_itemsChars (first : Bool) (hlegible : ∀ v ∈ items, v.Legible) :
    items.length ≤ (Value.itemsChars (leadChars first) items).length := by
  induction items generalizing first with
  | nil => exact Nat.zero_le _
  | cons v vs ih =>
      have hcons := length_itemsChars_cons first v vs (hlegible v List.mem_cons_self)
      have hvs := ih false fun v hv => hlegible v (List.mem_cons_of_mem _ hv)
      rw [List.length_cons]
      omega

/-- A list is read item by item behind its opening mark. -/
theorem readList_chars (items : List Value) (rest : List Char) :
    readList read ((Value.list items).chars ++ rest) =
      readItemsBy read ((Value.itemsChars (leadChars true) items ++ ']' :: rest).length + 1) true
        (Value.itemsChars (leadChars true) items ++ ']' :: rest) := by
  have htext : (Value.list items).chars ++ rest = '[' :: (Value.itemsChars (leadChars true) items ++ ']' :: rest) := by
    simp [Value.chars, leadChars]
  rw [htext, readList, skipBlank_cons (by decide)]
  rfl

/-- **A list is read as its items are.** -/
theorem follows_list (hitems : ∀ v ∈ items, v.Legible ∧ Follows read decode v) :
    Follows (readList read) (decodeList decode) (.list items) := by
  have hfuel : ∀ rest : List Char,
      items.length < (Value.itemsChars (leadChars true) items ++ ']' :: rest).length + 1 := by
    intro rest
    have hlength := length_le_itemsChars true fun v hv => (hitems v hv).1
    rw [List.length_append]
    omega
  constructor
  · intro rest parts _ hdecode
    rw [readList_chars]
    exact readItemsBy_gives (hfuel rest) hitems hdecode
  · intro rest e _ hdecode
    rw [readList_chars]
    exact readItemsBy_refuses (hfuel rest) hitems hdecode

end Lists

/-! ## Fields -/

/-- Whether a field takes from the text of a value what it stores of the value, or has the same complaint. -/
def Field.Takes (field : Field ρ) (v : Value) : Prop := ∀ r, Follows (field.take r) (field.store · r) v

/-- A part that is read as it is decoded is entered as it is stored. -/
theorem Follows.enter {read : PartReader α} {decode : Decoder α} (h : Follows read decode v) (set : α → ρ → ρ) (r : ρ) :
    Follows (enter read set r) (fun v => (decode v).map (set · r)) v := by
  constructor
  · intro rest r' hrest hstore
    cases hdecode : decode v with
    | error e => rw [hdecode] at hstore; cases hstore
    | ok a =>
        rw [hdecode] at hstore
        cases hstore
        simp only [Json.enter, h.gives hrest hdecode, bind, Except.bind]
        rfl
  · intro rest e hrest hstore
    cases hdecode : decode v with
    | ok a => rw [hdecode] at hstore; cases hstore
    | error e' =>
        rw [hdecode] at hstore
        cases hstore
        obtain ⟨fault, hread, hcause⟩ := h.refuses hrest hdecode
        simp only [Json.enter, hread, bind, Except.bind]
        exact ⟨fault, rfl, hcause⟩

theorem Field.takes_of (name : String) (decode : Decoder α) (set : α → ρ → ρ) (hlegible : v.Legible)
    (hflat : v.depth = 0) : (Field.of name decode set).Takes v :=
  fun r => (follows_plain decode hlegible hflat).enter set r

theorem Field.takes_listOf (name : String) (item : Decoder α) (set : List α → ρ → ρ) {items : List Value}
    (hitems : ∀ v ∈ items, v.Legible ∧ v.depth = 0) : (Field.listOf name item set).Takes (.list items) :=
  fun r => (follows_list fun v hv => ⟨(hitems v hv).1, follows_plain item (hitems v hv).1 (hitems v hv).2⟩).enter set r

/-! ## Members -/

/-- Whether members can be read straight into a record: each is asked for by a field that takes it. -/
def Record.Takes (record : Record ρ) (members : Members) : Prop :=
  ∀ m ∈ members, ∃ field, record.fields.find? (fun field => field.name == m.1) = some field ∧ field.Takes m.2

/-- A member in front of others is read by the field that asks for it, and the others behind it. -/
theorem readMembersInto_part {fuel : Nat} {first : Bool} {seen : List String} {key : String} {field : Field ρ}
    {ms : Members} (hfind : record.fields.find? (fun field => field.name == key) = some field) (hnew : key ∉ seen) :
    readMembersInto record (fuel + 1) first seen r
        (Value.membersChars (leadChars first) ((key, v) :: ms) ++ '\x7d' :: rest) = (do
      let (r, rest) ← field.take r (v.chars ++ (Value.membersChars (leadChars false) ms ++ '\x7d' :: rest))
      readMembersInto record fuel false (key :: seen) r rest) := by
  have htext : ∀ s : List Char, leadChars first ++ quotedChars key ++ ':' :: s =
      leadChars first ++ '"' :: (escapeChars key.toList ++ '"' :: ':' :: s) := by
    simp [quotedChars]
  have hcolon : ∀ s : List Char, readColon (':' :: s) = .ok s := by
    intro s
    rw [readColon, skipBlank_cons (by decide)]
    rfl
  have hseen : seen.contains key = false := by simpa using hnew
  rw [membersChars_cons]
  simp only [readMembersInto, htext, nextKey_part, readString_quoted, hcolon, hfind, hseen, bind, Except.bind]
  rfl

/-- Where the object ends, a field that is still missing is noticed. -/
theorem readMembersInto_close {fuel : Nat} {first : Bool} {seen : List String} :
    readMembersInto record (fuel + 1) first seen r ('\x7d' :: rest) =
      match Record.firstMissing record.fields seen with
      | some name => .error (.shape (.missingField name) rest)
      | none      => .ok (r, rest) := by
  rw [readMembersInto, nextKey, skipBlank_cons (by decide)]
  simp only [bind, Except.bind]
  rfl

/-- The members behind the first have not been seen with it. -/
theorem unseen_cons {key : String} {seen : List String} {ms : Members} (hfirst : key ∉ ms.map (·.1))
    (hnew : ∀ m ∈ ms, m.1 ∉ seen) : ∀ m ∈ ms, m.1 ∉ key :: seen := by
  intro m hm hseen
  rcases List.mem_cons.mp hseen with heq | hseen
  · have hkey : m.1 ∈ ms.map (·.1) := List.mem_map_of_mem hm
    exact hfirst (heq ▸ hkey)
  · exact hnew m hm hseen

/-- Members are read into the record in their order, where each of them can be entered; their names count as seen when
the object ends. -/
theorem readMembersInto_gives {fuel : Nat} {first : Bool} {seen : List String} (hfuel : members.length < fuel)
    (htakes : record.Takes members) (hkeys : (members.map (·.1)).Nodup) (hnew : ∀ m ∈ members, m.1 ∉ seen)
    (hstore : Record.storeMembers record.fields members r = .ok r') :
    readMembersInto record fuel first seen r (Value.membersChars (leadChars first) members ++ '\x7d' :: rest) =
      match Record.firstMissing record.fields ((members.map (·.1)).reverse ++ seen) with
      | some name => .error (.shape (.missingField name) rest)
      | none      => .ok (r', rest) := by
  induction members generalizing fuel first seen r with
  | nil =>
      obtain ⟨fuel, rfl⟩ : ∃ n, fuel = n + 1 := ⟨fuel - 1, by omega⟩
      cases hstore
      exact readMembersInto_close
  | cons m ms ih =>
      obtain ⟨key, v⟩ := m
      obtain ⟨fuel, rfl⟩ : ∃ n, fuel = n + 1 := ⟨fuel - 1, by omega⟩
      obtain ⟨field, hfind, hfield⟩ := htakes _ List.mem_cons_self
      rw [Record.storeMembers_some hfind] at hstore
      obtain ⟨r₁, hr₁, hstore⟩ := of_bind hstore
      obtain ⟨hfirst, hrest⟩ := List.nodup_cons.mp hkeys
      rw [readMembersInto_part hfind (hnew _ List.mem_cons_self), (hfield r).gives (endsNumber_members ms rest) hr₁,
        List.map_cons, List.reverse_cons, List.append_assoc]
      -- the name of the member counts as seen from here on
      exact ih (Nat.lt_of_succ_lt_succ hfuel) (fun m hm => htakes m (List.mem_cons_of_mem _ hm)) hrest
        (unseen_cons hfirst fun m hm => hnew m (List.mem_cons_of_mem _ hm)) hstore

/-- The first member that cannot be entered is complained about. -/
theorem readMembersInto_refuses {fuel : Nat} {first : Bool} {seen : List String} {e : DecodeError}
    (hfuel : members.length < fuel) (htakes : record.Takes members) (hkeys : (members.map (·.1)).Nodup)
    (hnew : ∀ m ∈ members, m.1 ∉ seen) (hstore : Record.storeMembers record.fields members r = .error e) :
    ∃ fault, readMembersInto record fuel first seen r
        (Value.membersChars (leadChars first) members ++ '\x7d' :: rest) = .error fault ∧ fault.cause = .shape e := by
  induction members generalizing fuel first seen r with
  | nil => cases hstore
  | cons m ms ih =>
      obtain ⟨key, v⟩ := m
      obtain ⟨fuel, rfl⟩ : ∃ n, fuel = n + 1 := ⟨fuel - 1, by omega⟩
      obtain ⟨field, hfind, hfield⟩ := htakes _ List.mem_cons_self
      rw [Record.storeMembers_some hfind] at hstore
      obtain ⟨hfirst, hrest⟩ := List.nodup_cons.mp hkeys
      have hends := endsNumber_members ms rest
      rw [readMembersInto_part hfind (hnew _ List.mem_cons_self)]
      -- either this member is refused, or it is entered and a later one is refused
      cases hv : field.store v r with
      | error e' =>
          rw [hv] at hstore
          cases hstore
          obtain ⟨fault, hread, hcause⟩ := (hfield r).refuses hends hv
          rw [hread]
          exact ⟨fault, rfl, hcause⟩
      | ok r₁ =>
          rw [hv] at hstore
          rw [(hfield r).gives hends hv]
          exact ih (Nat.lt_of_succ_lt_succ hfuel) (fun m hm => htakes m (List.mem_cons_of_mem _ hm)) hrest
            (unseen_cons hfirst fun m hm => hnew m (List.mem_cons_of_mem _ hm)) hstore

/-! ## Records -/

/-- Each member takes at least one character. -/
theorem length_le_membersChars (first : Bool) (members : Members) :
    members.length ≤ (Value.membersChars (leadChars first) members).length := by
  induction members generalizing first with
  | nil => exact Nat.zero_le _
  | cons m ms ih =>
      obtain ⟨key, v⟩ := m
      have hcons := congrArg List.length (membersChars_cons first key v ms [])
      have hms := ih false
      simp only [List.append_nil, List.length_append, List.length_cons] at hcons ⊢
      omega

/-- An object is read member by member behind its opening mark. -/
theorem Record.read_chars (members : Members) (rest : List Char) :
    record.read ((Value.object members).chars ++ rest) =
      readMembersInto record ((Value.membersChars (leadChars true) members ++ '\x7d' :: rest).length + 1) true []
        record.blank (Value.membersChars (leadChars true) members ++ '\x7d' :: rest) := by
  have htext : (Value.object members).chars ++ rest =
      '\x7b' :: (Value.membersChars (leadChars true) members ++ '\x7d' :: rest) := by
    simp [Value.chars, leadChars]
  rw [htext, Record.read, skipBlank_cons (by decide)]
  rfl

/-- **A record is read straight from the text of its members** as it is decoded from them in the order they stand in. -/
theorem Record.follows (htakes : record.Takes members) (hkeys : (members.map (·.1)).Nodup) :
    Follows record.read record.decode (.object members) := by
  have hfuel : ∀ rest : List Char,
      members.length < (Value.membersChars (leadChars true) members ++ '\x7d' :: rest).length + 1 := by
    intro rest
    have hlength := length_le_membersChars true members
    rw [List.length_append]
    omega
  -- the names are met in the order of the text, and which of them is missing does not depend on it
  have hmissing : firstMissing record.fields ((members.map (·.1)).reverse ++ []) =
      firstMissing record.fields members.keys := by
    rw [List.append_nil]
    exact firstMissing_perm (List.reverse_perm _)
  have hunseen : ∀ m ∈ members, m.1 ∉ ([] : List String) := fun _ _ => List.not_mem_nil
  constructor
  · intro rest r _ hdecode
    simp only [decode] at hdecode
    obtain ⟨r', hstore, hdecode⟩ := of_bind hdecode
    rw [read_chars, readMembersInto_gives (hfuel rest) htakes hkeys hunseen hstore, hmissing]
    cases hfirst : firstMissing record.fields members.keys with
    | some name => rw [hfirst] at hdecode; cases hdecode
    | none =>
        rw [hfirst] at hdecode
        cases hdecode
        rfl
  · intro rest e _ hdecode
    simp only [decode] at hdecode
    rw [read_chars]
    -- what is complained about is a member, or else a field that no member names
    cases hstore : storeMembers record.fields members record.blank with
    | error e' =>
        rw [hstore] at hdecode
        cases hdecode
        exact readMembersInto_refuses (hfuel rest) htakes hkeys hunseen hstore
    | ok r =>
        simp only [hstore, bind, Except.bind] at hdecode
        rw [readMembersInto_gives (hfuel rest) htakes hkeys hunseen hstore, hmissing]
        cases hfirst : firstMissing record.fields members.keys with
        | none => rw [hfirst] at hdecode; cases hdecode
        | some name =>
            rw [hfirst] at hdecode
            cases hdecode
            exact ⟨_, rfl, rfl⟩

@[simp] theorem Field.recordOf_name (name : String) (part : Record α) (set : α → ρ → ρ) :
    (Field.recordOf name part set).name = name := rfl

@[simp] theorem Field.recordOf_store (name : String) (part : Record α) (set : α → ρ → ρ) (v : Value) (r : ρ) :
    (Field.recordOf name part set).store v r = (part.decode v).map (set · r) := rfl

/-- A field that takes a value does so whether or not it may be absent. -/
theorem Field.Takes.orAbsent {field : Field ρ} (h : field.Takes v) : field.orAbsent.Takes v := h

theorem Field.takes_recordOf {part : Record α} (name : String) (set : α → ρ → ρ) (htakes : part.Takes members)
    (hkeys : (members.map (·.1)).Nodup) : (Field.recordOf name part set).Takes (.object members) :=
  fun r => (Record.follows htakes hkeys).enter set r

theorem Record.parse_render (htakes : record.Takes members) (hkeys : (members.map (·.1)).Nodup)
    (hdecode : record.decode (.object members) = .ok r) : record.parse (Value.object members).render = .ok r := by
  have hread := (Record.follows htakes hkeys).gives EndsNumber.nil hdecode
  rw [List.append_nil] at hread
  rw [Record.parse, Value.render, String.toList_ofList, hread]
  rfl

/-- Members that may be absent can be left out of the text where the blank record has their values. -/
theorem Record.parse_without (h : record.Independent) (htakes : record.Takes members)
    (hkeys : (members.map (·.1)).Nodup) (hdecode : record.decode (.object members) = .ok r) {dropped : List String}
    (hdropped : ∀ m ∈ members, m.1 ∈ dropped → ∀ field ∈ record.fields, field.name = m.1 →
      field.optional = true ∧ field.store m.2 record.blank = .ok record.blank) :
    record.parse ((Value.object members).without dropped).render = .ok r :=
  Record.parse_render (fun m hm => htakes m (List.mem_of_mem_filter hm)) (hkeys.sublist (List.filter_sublist.map _))
    (Record.decode_filter h hkeys hdropped hdecode)

/-- The complaint about a record is the same straight from its text. -/
theorem Record.parse_refuses {e : DecodeError} (htakes : record.Takes members) (hkeys : (members.map (·.1)).Nodup)
    (hdecode : record.decode (.object members) = .error e) :
    ∃ error, record.parse (Value.object members).render = .error error ∧ error.cause = .shape e := by
  obtain ⟨fault, hread, hcause⟩ := (Record.follows htakes hkeys).refuses EndsNumber.nil hdecode
  rw [List.append_nil] at hread
  rw [Record.parse, Value.render, String.toList_ofList, hread]
  exact ⟨_, rfl, hcause⟩

end JobWorker.Json
