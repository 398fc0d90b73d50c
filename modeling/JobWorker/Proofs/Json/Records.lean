import JobWorker.Json.Record
import JobWorker.Proofs.Document

/-!
# `JobWorker.Proofs.Json.Records` — records are read from their own texts

A record is written with its fields in the order of their declaration and read from a value whose members ascend by
key. Where no two fields get in each other's way, neither order matters: the record that the members give in one
order they give in any other. So a record whose own members give it back is given back by its text as well.

## Contents
- **Maps.** `Members.insert_perm`, `Value.arrangedMembers_perm`.
- **Fields.** `Field.Commutes`, `Field.commutes_of`, `Record.Independent`.
- **Order.** `Record.storeMembers_perm`, `Record.decode_perm`, `Record.decode_arranged`.
- **Leaving out.** `Record.decode_eq_ok_iff`, `Record.storeMembers_fails`, `Record.decode_filter`.
- **Texts.** `readText`, `readText_render`, `Value.Readable`, `Record.readText_without`.
- **Parts.** `decodeUnsigned_nat`, `decodeList_texts`.
-/

namespace JobWorker.Json

variable {ρ α β : Type}

/-! ## Maps -/

/-- The members of an object; other values have none. -/
def Value.members : Value → Members
  | .object members => members
  | _               => []

/-- A key that is not there yet is added. -/
theorem Members.insert_perm {members : Members} {key : String} (value : Value) (h : key ∉ members.map (·.1)) :
    (members.insert key value).Perm ((key, value) :: members) := by
  induction members with
  | nil => exact List.Perm.refl _
  | cons m ms ih =>
      obtain ⟨k, v⟩ := m
      have hne : key ≠ k := fun heq => h (heq ▸ List.mem_cons_self)
      have hms : key ∉ ms.map (·.1) := fun hmem => h (List.mem_cons_of_mem k hmem)
      rw [Members.insert, if_neg hne]
      split
      · exact List.Perm.refl _
      · exact ((ih hms).cons (k, v)).trans (List.Perm.swap _ _ _)

/-- Members with their values arranged. -/
def arrangedValues (members : Members) : Members := members.map fun m => (m.1, m.2.arranged)

theorem arrangedValues_keys (members : Members) : (arrangedValues members).map (·.1) = members.map (·.1) := by
  rw [arrangedValues, List.map_map]
  rfl

/-- Members of different keys all find their place in the map. -/
theorem Value.arrangedMembers_perm (done : Members) {members : Members} (hkeys : ((done ++ members).map (·.1)).Nodup) :
    (Value.arrangedMembers done members).Perm (done ++ arrangedValues members) := by
  induction members generalizing done with
  | nil =>
      rw [Value.arrangedMembers, arrangedValues, List.map_nil, List.append_nil]
  | cons m ms ih =>
      obtain ⟨key, v⟩ := m
      rw [List.map_append, List.map_cons] at hkeys
      have hnew : key ∉ done.map (·.1) := fun h => (List.nodup_append.mp hkeys).2.2 key h key List.mem_cons_self rfl
      have hinsert := Members.insert_perm v.arranged hnew
      have hmiddle : (done ++ arrangedValues ((key, v) :: ms)).Perm ((key, v.arranged) :: (done ++ arrangedValues ms)) :=
        List.perm_middle
      rw [Value.arrangedMembers]
      refine (ih _ ?_).trans ?_
      · rw [List.map_append]
        refine ((hinsert.map (·.1)).append_right _).nodup_iff.mpr ?_
        exact List.perm_middle.nodup_iff.mp hkeys
      · exact (hinsert.append_right _).trans hmiddle.symm

/-! ## Fields -/

section Fields

variable (name : String) (set : α → ρ → ρ) (v : Value) (r : ρ)

@[simp] theorem Field.of_name (decode : Decoder α) : (Field.of name decode set).name = name := rfl

@[simp] theorem Field.of_store (decode : Decoder α) :
    (Field.of name decode set).store v r = (decode v).map (set · r) := rfl

variable (setList : List α → ρ → ρ)

@[simp] theorem Field.listOf_name (item : Decoder α) : (Field.listOf name item setList).name = name := rfl

@[simp] theorem Field.listOf_store (item : Decoder α) :
    (Field.listOf name item setList).store v r = (decodeList item v).map (setList · r) := rfl

variable (field : Field ρ)

@[simp] theorem Field.orAbsent_name : field.orAbsent.name = field.name := rfl

@[simp] theorem Field.orAbsent_optional : field.orAbsent.optional = true := rfl

@[simp] theorem Field.orAbsent_store : field.orAbsent.store v r = field.store v r := rfl

end Fields

/-- Whether what two fields store does not depend on which of them comes first. -/
def Field.Commutes (f g : Field ρ) : Prop :=
  ∀ ⦃v w r s t⦄, f.store v r = .ok s → g.store w s = .ok t → ∃ s', g.store w r = .ok s' ∧ f.store v s' = .ok t

/-- Fields that set different parts of a record, whether or not they may be absent. -/
theorem Field.commutes_of {f g : Field ρ} (decode : Decoder α) (decode' : Decoder β) (set : α → ρ → ρ)
    (set' : β → ρ → ρ) (hf : f.store = fun v r => (decode v).map (set · r))
    (hg : g.store = fun v r => (decode' v).map (set' · r)) (h : ∀ a b r, set' b (set a r) = set a (set' b r)) :
    f.Commutes g := by
  intro v w r s t hs ht
  rw [hf] at hs ⊢
  rw [hg] at ht ⊢
  dsimp only at hs ht ⊢
  cases ha : decode v with
  | error e => rw [ha] at hs; cases hs
  | ok a =>
      rw [ha] at hs
      cases hs
      cases hb : decode' w with
      | error e => rw [hb] at ht; cases ht
      | ok b =>
          rw [hb] at ht
          cases ht
          exact ⟨_, rfl, congrArg Except.ok (h a b r).symm⟩

/-- What is stored of a part that is read, or complained about. -/
theorem map_ok_or {x : Except DecodeError α} {e : DecodeError} (f : α → β) (h : (∃ a, x = .ok a) ∨ x = .error e) :
    (∃ b, x.map f = .ok b) ∨ x.map f = .error e := by
  rcases h with ⟨a, rfl⟩ | rfl
  · exact .inl ⟨f a, rfl⟩
  · exact .inr rfl

/-- Whether no two fields of a record get in each other's way. -/
def Record.Independent (record : Record ρ) : Prop :=
  record.fields.Pairwise fun f g => f.Commutes g ∧ g.Commutes f

namespace Record

variable {record : Record ρ} {fields : List (Field ρ)} {members members' : Members} {r s : ρ}

theorem Independent.commutes {f g : Field ρ} (h : record.Independent) (hf : f ∈ record.fields) (hg : g ∈ record.fields)
    (hne : f.name ≠ g.name) : f.Commutes g := by
  have hsymm : Std.Symm fun f g : Field ρ => f.Commutes g ∧ g.Commutes f := ⟨fun _ _ h => h.symm⟩
  exact (List.Pairwise.forall h hf hg fun heq => hne (heq ▸ rfl)).1

/-! ## Order -/

theorem storeMembers_some {key : String} {v : Value} {field : Field ρ}
    (h : fields.find? (fun field => field.name == key) = some field) :
    storeMembers fields ((key, v) :: members) r = (do storeMembers fields members (← field.store v r)) := by
  rw [storeMembers, h]

theorem storeMembers_none {key : String} {v : Value} (h : fields.find? (fun field => field.name == key) = none) :
    storeMembers fields ((key, v) :: members) r = storeMembers fields members r := by
  rw [storeMembers, h]

/-- A field that is found has the name looked for. -/
theorem name_of_find {field : Field ρ} {key : String}
    (h : fields.find? (fun field => field.name == key) = some field) : field ∈ fields ∧ field.name = key :=
  ⟨List.mem_of_find?_eq_some h, by simpa using List.find?_some h⟩

/-- Two members in a row may change places. -/
theorem storeMembers_swap (h : record.Independent) {m m' : String × Value} (hne : m.1 ≠ m'.1)
    (hstore : storeMembers record.fields (m :: m' :: members) r = .ok s) :
    storeMembers record.fields (m' :: m :: members) r = .ok s := by
  obtain ⟨k, v⟩ := m
  obtain ⟨k', v'⟩ := m'
  cases hfind : record.fields.find? (fun field => field.name == k) with
  | none =>
      rw [storeMembers_none hfind] at hstore
      cases hfind' : record.fields.find? (fun field => field.name == k') with
      | none =>
          rw [storeMembers_none hfind'] at hstore
          rw [storeMembers_none hfind', storeMembers_none hfind, hstore]
      | some g =>
          rw [storeMembers_some hfind'] at hstore
          simp only [storeMembers_some hfind', storeMembers_none hfind, hstore]
  | some f =>
      rw [storeMembers_some hfind] at hstore
      cases hfind' : record.fields.find? (fun field => field.name == k') with
      | none =>
          simp only [storeMembers_none hfind'] at hstore
          rw [storeMembers_none hfind', storeMembers_some hfind, hstore]
      | some g =>
          simp only [storeMembers_some hfind'] at hstore
          obtain ⟨hf, rfl⟩ := name_of_find hfind
          obtain ⟨hg, rfl⟩ := name_of_find hfind'
          obtain ⟨r₁, hr₁, hstore⟩ := of_bind hstore
          obtain ⟨r₂, hr₂, hstore⟩ := of_bind hstore
          obtain ⟨r₁', hr₁', hr₂'⟩ := h.commutes hf hg hne hr₁ hr₂
          rw [storeMembers_some hfind', hr₁']
          show storeMembers record.fields ((f.name, v) :: members) r₁' = _
          rw [storeMembers_some hfind, hr₂']
          exact hstore

/-- **The order of members does not matter** where no two fields get in each other's way and each key stands once. -/
theorem storeMembers_perm (h : record.Independent) (hperm : members.Perm members') (hkeys : (members.map (·.1)).Nodup)
    (hstore : storeMembers record.fields members r = .ok s) : storeMembers record.fields members' r = .ok s := by
  -- along the way in which one order is made from the other: only a swap asks anything of the fields
  induction hperm generalizing r with
  | nil => exact hstore
  | cons m _ ih =>
      obtain ⟨k, v⟩ := m
      have hrest := (List.nodup_cons.mp hkeys).2
      cases hfind : record.fields.find? (fun field => field.name == k) with
      | none =>
          rw [storeMembers_none hfind] at hstore ⊢
          exact ih hrest hstore
      | some f =>
          rw [storeMembers_some hfind] at hstore ⊢
          obtain ⟨r', hr', hstore⟩ := of_bind hstore
          rw [hr']
          exact ih hrest hstore
  | swap m m' ms =>
      refine storeMembers_swap h ?_ hstore
      have hout := (List.nodup_cons.mp hkeys).1
      exact fun heq => hout (List.mem_cons.mpr (.inl heq))
  | trans hfirst _ ih ih' => exact ih' ((hfirst.map (·.1)).nodup_iff.mp hkeys) (ih hkeys hstore)

/-- What is missing depends on which keys are there. -/
theorem firstMissing_perm {keys keys' : List String} (h : keys.Perm keys') :
    firstMissing fields keys = firstMissing fields keys' := by
  have hcontains : ∀ name, keys.contains name = keys'.contains name := by
    intro name
    rw [Bool.eq_iff_iff, List.contains_iff_mem, List.contains_iff_mem]
    exact h.mem_iff
  unfold firstMissing
  simp only [hcontains]

theorem decode_perm (h : record.Independent) (hperm : members.Perm members') (hkeys : (members.map (·.1)).Nodup)
    (hdecode : record.decode (.object members) = .ok r) : record.decode (.object members') = .ok r := by
  simp only [decode] at hdecode ⊢
  obtain ⟨r', hstore, hdecode⟩ := of_bind hdecode
  have hmissing : firstMissing record.fields members.keys = firstMissing record.fields members'.keys :=
    firstMissing_perm (hperm.map fun m : String × Value => m.1)
  rw [storeMembers_perm h hperm hkeys hstore]
  rw [hmissing] at hdecode
  exact hdecode

/-- What is decoded in the order of the declaration is decoded from the map as well. -/
theorem decode_arranged (h : record.Independent) (hkeys : (members.map (·.1)).Nodup)
    (hdecode : record.decode (.object (arrangedValues members)) = .ok r) :
    record.decode (Value.object members).arranged = .ok r := by
  have hperm : (Value.arrangedMembers [] members).Perm (arrangedValues members) :=
    Value.arrangedMembers_perm [] hkeys
  rw [Value.arranged]
  exact decode_perm h hperm.symm (arrangedValues_keys members ▸ hkeys) hdecode

/-! ## Leaving out -/

/-- Members whose values the record has already change nothing. -/
theorem storeMembers_idle (idle : Members)
    (hidle : ∀ m ∈ idle, ∀ field ∈ fields, field.name = m.1 → field.store m.2 r = .ok r) :
    storeMembers fields (idle ++ members) r = storeMembers fields members r := by
  induction idle with
  | nil => rfl
  | cons m ms ih =>
      obtain ⟨key, v⟩ := m
      have hms := ih fun m hm => hidle m (List.mem_cons_of_mem _ hm)
      rw [List.cons_append]
      cases hfind : fields.find? (fun field => field.name == key) with
      | none => rw [storeMembers_none hfind, hms]
      | some field =>
          obtain ⟨hfield, hname⟩ := name_of_find hfind
          rw [storeMembers_some hfind, hidle _ List.mem_cons_self field hfield hname]
          exact hms

theorem firstMissing_eq_none_iff {keys : List String} :
    firstMissing fields keys = none ↔ ∀ field ∈ fields, field.optional = true ∨ field.name ∈ keys := by
  simp [firstMissing, List.find?_eq_none, or_iff_not_imp_left]

theorem decode_eq_ok_iff : record.decode (.object members) = .ok r ↔
    storeMembers record.fields members record.blank = .ok r ∧
      ∀ field ∈ record.fields, field.optional = true ∨ field.name ∈ members.map (·.1) := by
  rw [← firstMissing_eq_none_iff]
  simp only [decode]
  constructor
  · intro h
    obtain ⟨r', hstore, h⟩ := of_bind h
    split at h
    · cases h
    · rename_i hnone
      cases h
      exact ⟨hstore, hnone⟩
  · rintro ⟨hstore, hnone⟩
    have hkeys : firstMissing record.fields members.keys = none := hnone
    simp only [hstore, bind, Except.bind, hkeys]

/-- A complaint about a member is one about the record. -/
theorem decode_refused {e : DecodeError} (hstore : storeMembers record.fields members record.blank = .error e) :
    record.decode (.object members) = .error e := by
  simp only [decode, hstore]
  rfl

/-- Where each member is entered or complained about in one way, and one of them is, that is the complaint. -/
theorem storeMembers_fails {e : DecodeError}
    (hall : ∀ m ∈ members, ∀ field ∈ fields, field.name = m.1 → ∀ r,
      (∃ s, field.store m.2 r = .ok s) ∨ field.store m.2 r = .error e)
    (hsome : ∃ m ∈ members, (∃ field ∈ fields, field.name = m.1) ∧
      ∀ field ∈ fields, field.name = m.1 → ∀ r, field.store m.2 r = .error e) :
    storeMembers fields members r = .error e := by
  induction members generalizing r with
  | nil =>
      obtain ⟨m, hm, -⟩ := hsome
      exact absurd hm List.not_mem_nil
  | cons m ms ih =>
      obtain ⟨key, v⟩ := m
      have hrest := fun m hm => hall m (List.mem_cons_of_mem _ hm)
      obtain ⟨m', hm', ⟨g, hg, hname⟩, hfails⟩ := hsome
      cases hfind : fields.find? (fun field => field.name == key) with
      | none =>
          -- no field has the name of the first member, so that it is a later one that is complained about
          rw [storeMembers_none hfind]
          refine ih hrest ⟨m', ?_, ⟨g, hg, hname⟩, hfails⟩
          refine (List.mem_cons.mp hm').resolve_left fun heq => ?_
          have hother := List.find?_eq_none.mp hfind g hg
          rw [hname, heq] at hother
          exact hother (beq_self_eq_true key)
      | some field =>
          obtain ⟨hfield, rfl⟩ := name_of_find hfind
          rw [storeMembers_some hfind]
          rcases hall _ List.mem_cons_self field hfield rfl r with ⟨s, hs⟩ | hs
          · rw [hs]
            refine ih hrest ⟨m', ?_, ⟨g, hg, hname⟩, hfails⟩
            -- a member that was entered is not the one that no field takes
            refine (List.mem_cons.mp hm').resolve_left fun heq => ?_
            rw [heq] at hfails
            have hcontra := hfails field hfield rfl r
            rw [hs] at hcontra
            cases hcontra
          · rw [hs]
            rfl

/-- A complaint about the members in the order of the declaration is one about the map as well. -/
theorem decode_arranged_fails (hkeys : (members.map (·.1)).Nodup) {e : DecodeError}
    (hall : ∀ m ∈ arrangedValues members, ∀ field ∈ record.fields, field.name = m.1 → ∀ r,
      (∃ s, field.store m.2 r = .ok s) ∨ field.store m.2 r = .error e)
    (hsome : ∃ m ∈ arrangedValues members, (∃ field ∈ record.fields, field.name = m.1) ∧
      ∀ field ∈ record.fields, field.name = m.1 → ∀ r, field.store m.2 r = .error e) :
    record.decode (Value.object members).arranged = .error e := by
  have hperm : (Value.arrangedMembers [] members).Perm (arrangedValues members) :=
    Value.arrangedMembers_perm [] hkeys
  obtain ⟨m, hm, hfails⟩ := hsome
  exact decode_refused (storeMembers_fails (fun m hm => hall m (hperm.mem_iff.mp hm)) ⟨m, hperm.mem_iff.mpr hm, hfails⟩)

/-- Members that may be absent can be left out where the blank record has their values. -/
theorem decode_filter (h : record.Independent) (hkeys : (members.map (·.1)).Nodup) {dropped : List String}
    (hdropped : ∀ m ∈ members, m.1 ∈ dropped → ∀ field ∈ record.fields, field.name = m.1 →
      field.optional = true ∧ field.store m.2 record.blank = .ok record.blank)
    (hdecode : record.decode (.object members) = .ok r) :
    record.decode (.object (members.filter fun m => !dropped.contains m.1)) = .ok r := by
  obtain ⟨hstore, hpresent⟩ := decode_eq_ok_iff.mp hdecode
  have hsplit := (List.filter_append_perm (fun m : String × Value => dropped.contains m.1) members).symm
  refine decode_eq_ok_iff.mpr ⟨?_, ?_⟩
  · -- the members left out may as well stand in front, where each finds the blank record as it wants it
    rw [← storeMembers_idle (members.filter fun m => dropped.contains m.1)]
    · exact storeMembers_perm h hsplit hkeys hstore
    · intro m hm field hfield hname
      obtain ⟨hm, hcontains⟩ := List.mem_filter.mp hm
      exact (hdropped m hm (List.contains_iff_mem.mp hcontains) field hfield hname).2
  · intro field hfield
    refine (hpresent field hfield).elim .inl fun hmem => ?_
    obtain ⟨m, hm, hname⟩ := List.mem_map.mp hmem
    by_cases hin : m.1 ∈ dropped
    · exact .inl (hdropped m hm hin field hfield hname.symm).1
    · refine .inr (List.mem_map.mpr ⟨m, List.mem_filter.mpr ⟨hm, ?_⟩, hname⟩)
      simpa using hin

end Record

/-! ## Texts -/

/-- What a text decodes to: its value, taken apart by a decoder. -/
def readText (decode : Decoder α) (text : String) : Except Error α := do
  let v ← Value.parse text
  (decode v).mapError fun e => { cause := .shape e, position := none }

/-- A legible value is decoded from its text as it is itself, with its members arranged. -/
theorem readText_render (decode : Decoder α) {v : Value} (hlegible : v.Legible) (hdepth : v.depth ≤ maxDepth) :
    readText decode v.render = (decode v.arranged).mapError fun e => { cause := .shape e, position := none } := by
  rw [readText, parse_render hlegible hdepth]
  rfl

/-- A value without the members of these keys. -/
def Value.without (keys : List String) : Value → Value
  | .object members => .object (members.filter fun m => !keys.contains m.1)
  | v               => v

/-- Whether a value can stand in an object whose text gives it back. -/
structure Value.Readable (v : Value) : Prop where
  legible : v.Legible
  depth_lt : v.depth < maxDepth

/-- **A record is given back by its text,** also without members that may be left out. -/
theorem Record.readText_without {record : Record ρ} {members : Members} {r : ρ} (h : record.Independent)
    (hkeys : (members.map (·.1)).Nodup) (hparts : ∀ m ∈ members, m.2.Readable)
    (hdecode : record.decode (.object (arrangedValues members)) = .ok r) {dropped : List String}
    (hdropped : ∀ m ∈ members, m.1 ∈ dropped → ∀ field ∈ record.fields, field.name = m.1 →
      field.optional = true ∧ field.store m.2.arranged record.blank = .ok record.blank) :
    readText record.decode ((Value.object members).without dropped).render = .ok r := by
  have hmem : ∀ {m}, m ∈ members.filter (fun m => !dropped.contains m.1) → m ∈ members := List.mem_of_mem_filter
  have hfilter : arrangedValues (members.filter fun m => !dropped.contains m.1) =
      (arrangedValues members).filter fun m => !dropped.contains m.1 := by
    rw [arrangedValues, arrangedValues, List.filter_map]
    rfl
  have hlegible : (Value.object (members.filter fun m => !dropped.contains m.1)).Legible :=
    Value.membersLegible_iff.mpr fun m hm => (hparts m (hmem hm)).legible
  have hdepth : (Value.object (members.filter fun m => !dropped.contains m.1)).depth ≤ maxDepth :=
    Nat.succ_le_succ (Value.membersDepth_le_iff.mpr fun m hm => Nat.le_of_lt_succ (hparts m (hmem hm)).depth_lt)
  rw [Value.without, readText_render _ hlegible hdepth, Record.decode_arranged h (hkeys.sublist (List.filter_sublist.map _))]
  · rfl
  · rw [hfilter]
    refine Record.decode_filter h (arrangedValues_keys members ▸ hkeys) ?_ hdecode
    intro m' hm'
    obtain ⟨m, hm, rfl⟩ := List.mem_map.mp hm'
    exact hdropped m hm

/-! ## Parts -/

theorem readable_text (s : String) : (Value.text s).Readable := ⟨trivial, Nat.zero_lt_succ _⟩

theorem readable_bool (b : Bool) : (Value.bool b).Readable := ⟨trivial, Nat.zero_lt_succ _⟩

/-- A number of 64 bits without sign. -/
theorem readable_nat {n : Nat} (h : n ≤ maxUnsigned64) : (Value.nat n).Readable := by
  refine ⟨?_, Nat.zero_lt_succ _⟩
  show isWide n = true
  rw [isWide, decide_eq_true_eq]
  exact ⟨le_trans (by decide) (Int.natCast_nonneg n), Int.ofNat_le.mpr h⟩

theorem texts_spec (texts : List String) :
    Value.AllLegible (texts.map .text) ∧ Value.itemsDepth (texts.map .text) = 0 ∧
      Value.arrangedItems (texts.map .text) = texts.map .text := by
  induction texts with
  | nil => exact ⟨trivial, rfl, rfl⟩
  | cons s ss ih =>
      obtain ⟨hlegible, hdepth, harranged⟩ := ih
      refine ⟨⟨trivial, hlegible⟩, ?_, ?_⟩
      · rw [List.map_cons, Value.itemsDepth, hdepth]
        rfl
      · rw [List.map_cons, Value.arrangedItems, harranged]
        rfl

theorem readable_texts (texts : List String) : (Value.texts texts).Readable := by
  obtain ⟨hlegible, hdepth, -⟩ := texts_spec texts
  refine ⟨hlegible, ?_⟩
  rw [Value.texts, Value.depth, hdepth]
  decide

@[simp] theorem arranged_texts (texts : List String) : (Value.texts texts).arranged = .texts texts := by
  rw [Value.texts, Value.arranged, (texts_spec texts).2.2]

@[simp] theorem decodeText_text (s : String) : decodeText (.text s) = .ok s := rfl

@[simp] theorem decodeBool_bool (b : Bool) : decodeBool (.bool b) = .ok b := rfl

@[simp] theorem decodeList_texts (texts : List String) : decodeList decodeText (.texts texts) = .ok texts := by
  show (texts.map Value.text).mapM decodeText = .ok texts
  induction texts with
  | nil => rfl
  | cons s ss ih => rw [List.map_cons, List.mapM_cons, ih]; rfl

@[simp] theorem arranged_text (s : String) : (Value.text s).arranged = .text s := rfl

@[simp] theorem arranged_bool (b : Bool) : (Value.bool b).arranged = .bool b := rfl

@[simp] theorem arranged_nat (n : Nat) : (Value.nat n).arranged = .nat n := rfl

theorem decodeUnsigned_nat {cap n : Nat} (expected : Expected) (h : n ≤ cap) :
    decodeUnsigned cap expected (.nat n) = .ok n := by
  rw [Value.nat, decodeUnsigned, if_pos ⟨Int.natCast_nonneg n, Int.ofNat_le.mpr h⟩, Int.toNat_natCast]

end JobWorker.Json
