import JobWorker.Proofs.Rounding.Shortest

/-!
# `JobWorker.Proofs.Json.Doubles` — doubles are read back as they were written

A finite double is written with its shortest digits, in positional or in scientific notation. Whichever it is, the
reader puts the digits together to one whole number and counts the exponent from the last of them, which is what the
decimal says; and that is rounded to the double. Only the infinities and *not a number* are not read back, since they
are written as `null`.

## Contents
- **Digits.** `digitsValue_lt`, `le_digitsValue`, `Decimal.Says.bounds`, `Decimal.Says.exponent_bounds`.
- **Values.** `doubleOf?_eq`, `ReadsAs`, `finishDouble_eq`.
- **Exponents.** `readExponentDigits_eq`, `readExponent_eq`.
- **Notations.** `Spells`, `spells_below`, `spells_above`, `spells_across`, `positionalChars_spells`,
  `scientificChars_spells`, `readUnsigned_positional`, `readUnsigned_scientific`.
- **The law.** `readUnsigned_shortest`, `doubleChars_head`, `readNumber_doubleChars`.
-/

namespace JobWorker

variable {q x : Rat} {d : Decimal}

/-! ## Digits -/

namespace Json

variable {digits : List Char}

theorem digitsValue_append (digits more : List Char) :
    digitsValue (digits ++ more) = 10 ^ more.length * digitsValue digits + digitsValue more := by
  rw [digitsValue_eq, Nat.ofDigitChars_append, Nat.ofDigitChars_eq_ofDigitChars_zero, digitsValue_eq, digitsValue_eq]

theorem digitsValue_zeros (n : Nat) : digitsValue (List.replicate n '0') = 0 := by
  rw [digitsValue_eq, Nat.ofDigitChars_replicate_zero, Nat.mul_zero]

/-- The value of a digit is less than ten, and is zero only for the digit zero. -/
theorem digit_spec {c : Char} (hc : c.isDigit = true) : c.toNat - 48 < 10 ∧ (c ≠ '0' → 0 < c.toNat - 48) := by
  have hrange : 48 ≤ c.toNat ∧ c.toNat ≤ 57 := Char.isDigit_iff_toNat.mp hc
  refine ⟨by omega, fun hne => ?_⟩
  have hzero : c.toNat ≠ 48 := fun h => hne (Char.toNat_inj.mp h)
  omega

theorem digitsValue_lt (hdigits : ∀ c ∈ digits, c.isDigit = true) : digitsValue digits < 10 ^ digits.length := by
  induction digits with
  | nil => exact Nat.one_pos
  | cons c cs ih =>
      have hc := (digit_spec (hdigits c List.mem_cons_self)).1
      have hcs := ih fun d hd => hdigits d (List.mem_cons_of_mem c hd)
      have happend := digitsValue_append [c] cs
      have hone : digitsValue [c] = c.toNat - 48 := Nat.zero_add _
      rw [List.singleton_append, hone] at happend
      rw [happend, List.length_cons, pow_succ]
      nlinarith

theorem le_digitsValue {c : Char} (cs : List Char) (hc : c.isDigit = true) (hne : c ≠ '0') :
    10 ^ cs.length ≤ digitsValue (c :: cs) := by
  have hpos := (digit_spec hc).2 hne
  have happend := digitsValue_append [c] cs
  have hone : digitsValue [c] = c.toNat - 48 := Nat.zero_add _
  rw [List.singleton_append, hone] at happend
  rw [happend]
  nlinarith [Nat.pos_of_ne_zero (pow_ne_zero cs.length (by norm_num : (10 : Nat) ≠ 0))]

end Json

theorem ten_ne_zero : (10 : Rat) ≠ 0 := by norm_num

open Json

namespace Decimal.Says

theorem digitsValue_eq (h : d.Says x) :
    x = (digitsValue d.digits : Nat) * (10 : Rat) ^ (d.exponent - (d.digits.length - 1 : Nat)) := by
  rw [Json.digitsValue_eq]
  exact h.value

/-- The exponent of a decimal is that of its leading digit. -/
theorem bounds (h : d.Says x) : (10 : Rat) ^ d.exponent ≤ x ∧ x < 10 ^ (d.exponent + 1) := by
  obtain ⟨c, cs, hcons, hc⟩ := h.leading
  have hvalue := h.digitsValue_eq
  have hlow := le_digitsValue cs (h.digits c (hcons ▸ List.mem_cons_self)) hc
  have hhigh := digitsValue_lt h.digits
  rw [hcons, List.length_cons, Nat.add_sub_cancel] at hvalue
  rw [hcons, List.length_cons] at hhigh
  have hunit : (0 : Rat) < 10 ^ (d.exponent - cs.length) := zpow_pos (by norm_num) _
  have hleast := zpow_shift ten_ne_zero (d.exponent - cs.length) cs.length
  have hmost := zpow_shift ten_ne_zero (d.exponent - cs.length) (cs.length + 1)
  rw [sub_add_cancel] at hleast
  rw [Nat.cast_succ, ← add_assoc, sub_add_cancel] at hmost
  rw [hleast, hmost, hvalue]
  constructor
  · exact mul_le_mul_of_nonneg_right (by exact_mod_cast hlow) hunit.le
  · exact mul_lt_mul_of_pos_right (by exact_mod_cast hhigh) hunit

end Decimal.Says

/-! ## Values -/

/-- Powers of ten on either side of the doubles. -/
theorem doubles_within : (2 : Rat) ^ (1024 : Int) ≤ 10 ^ (309 : Int) ∧ (10 : Rat) ^ (-324 : Int) ≤ 2 ^ (-1075 : Int) := by
  have hhigh : (2 : Nat) ^ 1024 ≤ 10 ^ 309 := by decide +kernel
  have hlow : (2 : Nat) ^ 1075 ≤ 10 ^ 324 := by decide +kernel
  constructor
  · exact_mod_cast hhigh
  · rw [zpow_neg, zpow_neg]
    refine inv_anti₀ (by positivity) ?_
    exact_mod_cast hlow

/-- What is rounded to a double other than zero has its leading digit where doubles have it. -/
theorem exponent_within {e : Int} (hx : 0 < x) (hq : q ≠ 0) (hround : Binary64.round x = .finite q)
    (hlow : (10 : Rat) ^ e ≤ x) (hhigh : x < 10 ^ (e + 1)) : -325 < e ∧ e < 309 := by
  have hten : (1 : Rat) < 10 := by norm_num
  constructor
  · have hless : (10 : Rat) ^ (-324 : Int) < 10 ^ (e + 1) :=
      lt_of_le_of_lt (doubles_within.2.trans (Binary64.le_of_round hx hround hq)) hhigh
    have := (zpow_lt_zpow_iff_right₀ hten).mp hless
    omega
  · have hless : (10 : Rat) ^ e < 10 ^ (309 : Int) :=
      lt_of_lt_of_le (lt_of_le_of_lt hlow (Binary64.lt_of_round hx hround)) doubles_within.1
    exact (zpow_lt_zpow_iff_right₀ hten).mp hless

theorem Decimal.Says.exponent_bounds (h : d.Says x) (hx : 0 < x) (hq : q ≠ 0) (hround : Binary64.round x = .finite q) :
    -325 < d.exponent ∧ d.exponent < 309 :=
  exponent_within hx hq hround h.bounds.1 h.bounds.2

namespace Json

variable {negative : Bool} {whole fraction rest s : List Char} {y : Extended} {e : Int} {n : Nat}

/-- A number that is rounded to a double is read as that double, whatever digits and exponent it is put together of. -/
theorem doubleOf?_eq (hvalue : x = n * (10 : Rat) ^ e) (hx : 0 < x) (hq : q ≠ 0)
    (hround : Binary64.round x = .finite q) : doubleOf? negative n e = some (.finite (if negative then -q else q)) := by
  have hunit : (0 : Rat) < 10 ^ e := zpow_pos (by norm_num) _
  have hn : 0 < n := by
    refine Nat.pos_of_ne_zero fun h => ?_
    rw [hvalue, h, Nat.cast_zero, zero_mul] at hx
    exact lt_irrefl _ hx
  obtain ⟨k, hlength, hlow, hhigh⟩ := decimalLength_spec hn
  have hwithin : -325 < e + k ∧ e + k < 309 := by
    refine exponent_within hx hq hround ?_ ?_
    · rw [zpow_shift ten_ne_zero, hvalue]
      exact mul_le_mul_of_nonneg_right (by exact_mod_cast hlow) hunit.le
    · rw [add_assoc, ← Nat.cast_succ, zpow_shift ten_ne_zero, hvalue]
      exact mul_lt_mul_of_pos_right (by exact_mod_cast hhigh) hunit
  have hten : (n : Rat) * ratPow 10 e = x := by rw [ratPow_eq_zpow, hvalue, Nat.cast_ofNat]
  unfold doubleOf?
  rw [if_neg hn.ne', hlength]
  dsimp only
  rw [if_neg (by push_cast; omega), if_neg (by push_cast; omega), hten]
  cases negative with
  | false => rw [if_neg Bool.false_ne_true, hround]; rfl
  | true => rw [if_pos rfl, (Binary64.round_neg_iff hx hq).mpr hround]; rfl

/-- Whether `x` is read as `y`, whatever digits and exponent it is put together of. -/
def ReadsAs (negative : Bool) (x : Rat) (y : Extended) : Prop :=
  ∀ (n : Nat) (e : Int), x = n * (10 : Rat) ^ e → doubleOf? negative n e = some y

/-- The end of a number with a fraction or an exponent. -/
theorem finishDouble_eq (hy : ReadsAs negative x y)
    (hvalue : x = digitsValue (whole ++ fraction) * (10 : Rat) ^ (e - fraction.length)) (rest : List Char) :
    finishDouble negative whole fraction (some e) rest = .ok (.double y, rest) := by
  unfold finishDouble
  dsimp only
  rw [hy _ _ hvalue]

/-! ## Exponents -/

theorem le_ofDigitChars (digits : List Char) (n : Nat) : n ≤ Nat.ofDigitChars 10 digits n := by
  rw [Nat.ofDigitChars_eq_ofDigitChars_zero]
  nlinarith [Nat.pos_of_ne_zero (pow_ne_zero digits.length (by norm_num : (10 : Nat) ≠ 0))]

/-- The digits of an exponent are read to their end, as long as it fits 32 bits. -/
theorem readExponentDigits_eq {digits : List Char} (negative zero : Bool) (hdigits : ∀ c ∈ digits, c.isDigit = true)
    (hs : NoDigit s) (hfits : Nat.ofDigitChars 10 digits n ≤ maxSigned32) :
    readExponentDigits negative zero n (digits ++ s) = .ok (some (Nat.ofDigitChars 10 digits n), s) := by
  induction digits generalizing n with
  | nil =>
      rw [List.nil_append, Nat.ofDigitChars_nil]
      cases s with
      | nil => rfl
      | cons c r =>
          rw [readExponentDigits, if_neg]
          rw [hs c r rfl]
          decide
  | cons c cs ih =>
      have hnext : n * 10 + (c.toNat - 48) = 10 * n + (c.toNat - '0'.toNat) := by rw [Nat.mul_comm]; rfl
      rw [Nat.ofDigitChars_cons] at hfits ⊢
      rw [List.cons_append, readExponentDigits, if_pos (hdigits c List.mem_cons_self)]
      dsimp only
      rw [hnext, if_neg (Nat.not_lt.mpr ((le_ofDigitChars cs _).trans hfits))]
      exact ih (fun d hd => hdigits d (List.mem_cons_of_mem c hd)) hfits

/-- An exponent is read back behind its sign. -/
theorem readExponent_eq (zero : Bool) (hs : NoDigit s) (hfits : e.natAbs ≤ maxSigned32) :
    readExponent zero ((if e < 0 then '-' else '+') :: Nat.toDigits 10 e.natAbs ++ s) = .ok (some e, s) := by
  obtain ⟨c, cs, hsplit, -⟩ := toDigits_split e.natAbs
  have hdigits : ∀ d ∈ c :: cs, d.isDigit = true := fun d hd => isDigit_of_mem_toDigits (hsplit ▸ hd)
  have hvalue : Nat.ofDigitChars 10 cs (c.toNat - 48) = e.natAbs := by
    have hten : Nat.ofDigitChars 10 (Nat.toDigits 10 e.natAbs) 0 = e.natAbs := Nat.ofDigitChars_ten_toDigits
    rw [hsplit, Nat.ofDigitChars_cons, Nat.mul_zero, Nat.zero_add] at hten
    exact hten
  have hread : ∀ negative, readExponentDigits negative zero (c.toNat - 48) (cs ++ s) = .ok (some e.natAbs, s) := by
    intro negative
    rw [readExponentDigits_eq negative zero (fun d hd => hdigits d (List.mem_cons_of_mem c hd)) hs (hvalue ▸ hfits),
      hvalue]
  have hc := hdigits c List.mem_cons_self
  rw [hsplit]
  by_cases hneg : e < 0
  · have habs : -(e.natAbs : Int) = e := by omega
    rw [if_pos hneg]
    simp only [readExponent, List.cons_append, hc, if_true, hread]
    exact congrArg (fun m => Except.ok (some m, s)) habs
  · have habs : (e.natAbs : Int) = e := by omega
    rw [if_neg hneg]
    simp only [readExponent, List.cons_append, hc, if_true, hread]
    exact congrArg (fun m => Except.ok (some m, s)) habs

/-- An exponent as it is written: its mark, its sign and its digits. -/
def exponentChars (e : Int) : List Char := 'e' :: (if e < 0 then '-' else '+') :: Nat.toDigits 10 e.natAbs

theorem exponentChars_noDigit (e : Int) (s : List Char) : NoDigit (exponentChars e ++ s) :=
  NoDigit.cons (by decide)

/-! ## Notations -/

/-- The digits before and behind a point, together with an exponent, spell a number. -/
structure Spells (whole fraction : List Char) (e : Int) (x : Rat) : Prop where
  digits : ∀ c ∈ whole ++ fraction, c.isDigit = true
  leading : ∃ c cs, whole = c :: cs ∧ (c = '0' → cs = [])
  value : x = digitsValue (whole ++ fraction) * (10 : Rat) ^ (e - fraction.length)

theorem isDigit_of_mem_zeros {k : Nat} : ∀ c ∈ List.replicate k '0', c.isDigit = true := by
  intro c hc
  rw [List.eq_of_mem_replicate hc]
  decide

/-- A decimal below one is spelled by a zero before the point, and behind it zeros in front of the digits. -/
theorem spells_below (hd : d.Says x) (hneg : d.exponent < 0) :
    Spells ['0'] (List.replicate (-d.exponent - 1).toNat '0' ++ d.digits) 0 x := by
  obtain ⟨c, cs, hcons, -⟩ := hd.leading
  generalize hk : (-d.exponent - 1).toNat = k
  have hzeros : ['0'] ++ (List.replicate k '0' ++ d.digits) = List.replicate (k + 1) '0' ++ d.digits := rfl
  refine ⟨?_, ⟨_, _, rfl, fun _ => rfl⟩, ?_⟩
  · rw [hzeros]
    exact List.forall_mem_append.mpr ⟨isDigit_of_mem_zeros, hd.digits⟩
  · rw [hd.digitsValue_eq, hzeros, digitsValue_append, digitsValue_zeros, Nat.mul_zero, Nat.zero_add]
    congr 2
    rw [List.length_append, List.length_replicate, hcons, List.length_cons]
    push_cast
    omega

/-- Digits that do not reach the point are spelled with zeros up to it, and one behind it. -/
theorem spells_above (hd : d.Says x) {k : Nat} (hpoint : d.exponent + 1 = d.digits.length + k) :
    Spells (d.digits ++ List.replicate k '0') ['0'] 0 x := by
  obtain ⟨c, cs, hcons, hc⟩ := hd.leading
  have hzeros : d.digits ++ List.replicate k '0' ++ ['0'] = d.digits ++ List.replicate (k + 1) '0' := by
    rw [List.append_assoc, List.replicate_succ']
  refine ⟨?_, ⟨c, _, by rw [hcons]; rfl, fun h => absurd h hc⟩, ?_⟩
  · rw [hzeros]
    exact List.forall_mem_append.mpr ⟨hd.digits, isDigit_of_mem_zeros⟩
  · have hexponent : d.exponent - (d.digits.length - 1 : Nat) = (0 - (['0'].length : Int)) + (k + 1 : Nat) := by
      rw [hcons, List.length_cons] at hpoint ⊢
      rw [List.length_singleton]
      push_cast at hpoint ⊢
      omega
    rw [hd.digitsValue_eq, hzeros, digitsValue_append, digitsValue_zeros, List.length_replicate, Nat.add_zero, hexponent,
      zpow_shift ten_ne_zero]
    push_cast
    ring

/-- Digits that go past the point are spelled with the point between two of them. -/
theorem spells_across (hd : d.Says x) {w : Nat} (hpoint : d.exponent + 1 = w) (hpos : 0 < w)
    (hlong : w < d.digits.length) : Spells (d.digits.take w) (d.digits.drop w) 0 x := by
  obtain ⟨c, cs, hcons, hc⟩ := hd.leading
  obtain ⟨w, rfl⟩ : ∃ n, w = n + 1 := ⟨w - 1, by omega⟩
  refine ⟨?_, ⟨c, cs.take w, by rw [hcons]; rfl, fun h => absurd h hc⟩, ?_⟩
  · rw [List.take_append_drop]
    exact hd.digits
  · rw [List.take_append_drop, hd.digitsValue_eq, List.length_drop]
    congr 2
    omega

/-- The positional notation spells the decimal, with digits on either side of the point. -/
theorem positionalChars_spells (hd : d.Says x) :
    ∃ whole fraction, positionalChars d = whole ++ '.' :: fraction ∧ fraction ≠ [] ∧ Spells whole fraction 0 x := by
  obtain ⟨c, cs, hcons, -⟩ := hd.leading
  unfold positionalChars
  by_cases hneg : d.exponent < 0
  · rw [if_pos hneg]
    exact ⟨_, _, rfl, by simp [hcons], spells_below hd hneg⟩
  rw [if_neg hneg]
  dsimp only
  generalize hw : d.exponent.toNat + 1 = w
  by_cases hlong : d.digits.length ≤ w
  · have hlength : (d.digits ++ List.replicate (w - d.digits.length) '0').length = w := by
      rw [List.length_append, List.length_replicate]
      omega
    rw [List.take_of_length_le hlength.le, List.drop_of_length_le hlength.le]
    exact ⟨_, ['0'], rfl, List.cons_ne_nil _ _, spells_above hd (by omega)⟩
  · have hnone : w - d.digits.length = 0 := by omega
    have hdrop : d.digits.drop w ≠ [] := by
      rw [Ne, List.drop_eq_nil_iff]
      exact hlong
    rw [hnone, List.replicate_zero, List.append_nil, if_neg (by rw [List.isEmpty_iff]; exact hdrop)]
    exact ⟨_, _, rfl, hdrop, spells_across hd (by omega) (by omega) (by omega)⟩

/-- The scientific notation spells the decimal, with a point only in front of further digits. -/
theorem scientificChars_spells (hd : d.Says x) :
    ∃ whole fraction, scientificChars d =
        whole ++ ((if fraction = [] then [] else '.' :: fraction) ++ exponentChars d.exponent) ∧
      Spells whole fraction d.exponent x := by
  obtain ⟨c, cs, hcons, -⟩ := hd.leading
  have hvalue := hd.digitsValue_eq
  have hdigits := hd.digits
  refine ⟨[c], cs, ?_, ?_, ⟨c, [], rfl, fun _ => rfl⟩, ?_⟩
  · unfold scientificChars
    rw [hcons]
    cases cs with
    | nil => rfl
    | cons c' cs => rfl
  · rw [List.singleton_append, ← hcons]
    exact hdigits
  · rw [List.singleton_append, ← hcons, hvalue]
    congr 3
    rw [hcons, List.length_cons, Nat.add_sub_cancel]

/-- Digits with a fraction behind them are read to where the number ends. -/
theorem readFraction_point (negative : Bool) (whole : List Char) (hfraction : ∀ c ∈ fraction, c.isDigit = true)
    (hne : fraction ≠ []) (hs : NoDigit s) :
    readFraction negative whole ('.' :: (fraction ++ s)) = readScaled negative whole fraction s := by
  obtain ⟨hrun, hrest⟩ := span_digits hfraction hs
  rw [readFraction, hrun, hrest, if_neg]
  rw [List.isEmpty_iff]
  exact hne

/-- A fraction with nothing behind it. -/
theorem readScaled_end (negative : Bool) (whole fraction : List Char) (hs : EndsNumber s) :
    readScaled negative whole fraction s = finishDouble negative whole fraction (some 0) s := by
  cases s with
  | nil => rfl
  | cons c r =>
      obtain ⟨-, -, he, hE⟩ := hs c r rfl
      rw [readScaled, if_neg (by simp [he, hE])]

/-- Digits with an exponent behind them. -/
theorem readScaled_exponent (negative : Bool) (whole fraction : List Char) (hs : NoDigit s)
    (hfits : e.natAbs ≤ maxSigned32) :
    readScaled negative whole fraction (exponentChars e ++ s) = finishDouble negative whole fraction (some e) s := by
  have hread := readExponent_eq (digitsValue (whole ++ fraction) == 0) hs hfits
  rw [exponentChars, List.cons_append, readScaled, if_pos (.inl rfl), hread]
  rfl

/-- The positional notation is read back. -/
theorem readUnsigned_positional (hd : d.Says x) (hy : ReadsAs negative x y) (hs : EndsNumber s) :
    readUnsigned negative (positionalChars d ++ s) = .ok (.double y, s) := by
  obtain ⟨whole, fraction, hchars, hne, hspells⟩ := positionalChars_spells hd
  obtain ⟨c, cs, rfl, hzero⟩ := hspells.leading
  obtain ⟨hwhole, hfraction⟩ := List.forall_mem_append.mp hspells.digits
  have hpoint : NoDigit ('.' :: (fraction ++ s)) := NoDigit.cons (by decide)
  have hsplit : c :: cs ++ '.' :: fraction ++ s = c :: cs ++ '.' :: (fraction ++ s) := List.append_assoc _ _ _
  rw [hchars, hsplit, readUnsigned_digits negative hwhole hzero hpoint, readFraction_point negative _ hfraction hne hs.noDigit, readScaled_end negative _ _ hs]
  exact finishDouble_eq hy hspells.value s

/-- The scientific notation is read back. -/
theorem readUnsigned_scientific (hd : d.Says x) (hy : ReadsAs negative x y) (hs : EndsNumber s)
    (hfits : d.exponent.natAbs ≤ maxSigned32) :
    readUnsigned negative (scientificChars d ++ s) = .ok (.double y, s) := by
  obtain ⟨whole, fraction, hchars, hspells⟩ := scientificChars_spells hd
  obtain ⟨c, cs, rfl, hzero⟩ := hspells.leading
  obtain ⟨hwhole, hfraction⟩ := List.forall_mem_append.mp hspells.digits
  have hend := finishDouble_eq hy hspells.value s
  have hexponent := readScaled_exponent negative (c :: cs) fraction hs.noDigit hfits
  have hmark := exponentChars_noDigit d.exponent s
  rw [hchars, List.append_assoc, List.append_assoc]
  by_cases hnone : fraction = []
  · subst hnone
    rw [if_pos rfl, List.nil_append, readUnsigned_digits negative hwhole hzero hmark]
    -- without a fraction the mark follows the digits
    exact hexponent.trans hend
  · have hpoint : NoDigit ('.' :: (fraction ++ (exponentChars d.exponent ++ s))) := NoDigit.cons (by decide)
    have hsplit : '.' :: fraction ++ (exponentChars d.exponent ++ s) =
        '.' :: (fraction ++ (exponentChars d.exponent ++ s)) := rfl
    rw [if_neg hnone, hsplit, readUnsigned_digits negative hwhole hzero hpoint,
      readFraction_point negative _ hfraction hnone hmark]
    exact hexponent.trans hend

/-! ## The law -/

/-- The digits of a positive double are read back behind either sign. -/
theorem readUnsigned_shortest (negative : Bool) (hq : 0 < q) (hdouble : Binary64.round q = .finite q) (hs : EndsNumber s) :
    readUnsigned negative (decimalChars (Decimal.shortest q) ++ s) =
      .ok (.double (.finite (if negative then -q else q)), s) := by
  obtain ⟨m, e, hplace⟩ := Binary64.place_of_isDouble hq hdouble
  obtain ⟨x, hsays, hx, hround⟩ := Decimal.shortest_says hplace
  have hy : ReadsAs negative x (.finite (if negative then -q else q)) := by
    intro n e hvalue
    exact doubleOf?_eq hvalue hx hq.ne' hround
  obtain ⟨hlow, hhigh⟩ := hsays.exponent_bounds hx hq.ne' hround
  unfold decimalChars
  split
  · exact readUnsigned_positional hsays hy hs
  · refine readUnsigned_scientific hsays hy hs ?_
    unfold maxSigned32
    omega

/-- The digits of a positive double begin with one. -/
theorem shortest_head (hq : 0 < q) (hdouble : Binary64.round q = .finite q) :
    ∃ c r, decimalChars (Decimal.shortest q) = c :: r ∧ c.isDigit = true := by
  obtain ⟨m, e, hplace⟩ := Binary64.place_of_isDouble hq hdouble
  obtain ⟨x, hsays, -⟩ := Decimal.shortest_says hplace
  unfold decimalChars
  split
  · obtain ⟨whole, fraction, hchars, -, hspells⟩ := positionalChars_spells hsays
    obtain ⟨c, cs, rfl, -⟩ := hspells.leading
    exact ⟨c, _, hchars, hspells.digits c List.mem_cons_self⟩
  · obtain ⟨whole, fraction, hchars, hspells⟩ := scientificChars_spells hsays
    obtain ⟨c, cs, rfl, -⟩ := hspells.leading
    exact ⟨c, _, hchars, hspells.digits c List.mem_cons_self⟩

/-- The first character of a finite double. -/
theorem doubleChars_head {x : Extended} (hx : x.IsDouble) (hfinite : x.toRat?.isSome = true) :
    ∃ c r, doubleChars x = c :: r ∧ (c = '-' ∨ c.isDigit = true) := by
  cases x with
  | nan => cases hfinite
  | infinity negative => cases hfinite
  | negativeZero => exact ⟨_, _, rfl, .inl rfl⟩
  | finite q =>
      rw [doubleChars]
      rcases lt_trichotomy q 0 with hq | rfl | hq
      · rw [if_neg hq.ne, if_pos hq]
        exact ⟨_, _, rfl, .inl rfl⟩
      · exact ⟨_, _, rfl, .inr (by decide)⟩
      · rw [if_neg hq.ne', if_neg hq.not_gt]
        obtain ⟨c, r, hchars, hc⟩ := shortest_head hq hx
        exact ⟨c, r, hchars, .inr hc⟩

/-- The two zeros are read back. -/
theorem readUnsigned_zero (negative : Bool) (hs : EndsNumber s) :
    readUnsigned negative ("0.0".toList ++ s) = .ok (.double (Extended.signedZero negative), s) := by
  have hpoint : NoDigit ('.' :: (['0'] ++ s)) := NoDigit.cons (by decide)
  have hzero : ∀ c ∈ ['0'], c.isDigit = true := List.forall_mem_singleton.mpr rfl
  have hread : readUnsigned negative (['0'] ++ '.' :: (['0'] ++ s)) = readFraction negative ['0'] ('.' :: (['0'] ++ s)) :=
    readUnsigned_digits negative hzero (fun _ => rfl) hpoint
  rw [readFraction_point negative ['0'] hzero (by decide) hs.noDigit, readScaled_end negative _ _ hs] at hread
  exact hread

/-- **A finite double is read back as it was written,** in front of what does not go on with it. -/
theorem readNumber_doubleChars {x : Extended} (hx : x.IsDouble) (hfinite : x.toRat?.isSome = true)
    (hs : EndsNumber s) : readNumber (doubleChars x ++ s) = .ok (.double x, s) := by
  cases x with
  | nan => cases hfinite
  | infinity negative => cases hfinite
  | negativeZero => exact readUnsigned_zero true hs
  | finite q =>
      rcases lt_trichotomy q 0 with hq | rfl | hq
      · have hpos : 0 < -q := neg_pos.mpr hq
        have hdouble : Binary64.round (-q) = .finite (-q) := by
          rw [← Binary64.round_neg_iff hpos hpos.ne', neg_neg]
          exact hx
        have hread := readUnsigned_shortest true hpos hdouble hs
        rw [if_pos rfl, neg_neg] at hread
        rw [doubleChars, if_neg hq.ne, if_pos hq]
        exact hread
      · exact readUnsigned_zero false hs
      · have hread := readUnsigned_shortest false hq hx hs
        rw [if_neg Bool.false_ne_true] at hread
        obtain ⟨c, r, hchars, hc⟩ := shortest_head hq hx
        rw [doubleChars, if_neg hq.ne', if_neg hq.not_gt]
        rw [hchars] at hread ⊢
        exact (readNumber_digit hc (r ++ s)).trans hread

end Json

end JobWorker
