import JobWorker.Json.Printer
import JobWorker.Json.Reader

/-!
# `JobWorker.Proofs.Json.Tokens` — tokens are read back as they were written

A string is written character by character, and each character, escaped or not, is read back by one step of the
reader. A whole number is written as its decimal digits. Where it ends is not written, so that it is read back only
in front of something that does not go on with it; everything that follows a value in a text is of this kind.

## Contents
- **Blanks.** `skipBlank_cons`.
- **Strings.** `readEscape_control`, `readChars_escapeChar`, `readString_quoted`.
- **Digits.** `NoDigit`, `span_digits`, `readUnsigned_digits`.
- **Whole numbers.** `EndsNumber`, `toDigits_split`, `readUnsigned_toDigits`, `readNumber_integerChars`.
-/

namespace JobWorker.Json

/-! ## Blanks -/

theorem skipBlank_cons {c : Char} {s : List Char} (hc : isGrammarBlank c = false) :
    skipBlank (c :: s) = c :: s :=
  List.dropWhile_cons_of_neg (by rw [hc]; decide)

/-! ## Strings -/

/-- A digit that was written has its value, and takes one byte. -/
theorem hexValue?_hexDigit : ∀ n < 16, hexValue? (hexDigit n) = some n ∧ (hexDigit n).utf8Size = 1 := by
  decide

/-- The escape of a control character, which two digits are enough for. -/
theorem readEscape_control {n : Nat} (hn : n < 32) (s : List Char) :
    readEscape ('u' :: '0' :: '0' :: hexDigit (n / 16) :: hexDigit (n % 16) :: s) = .ok (Char.ofNat n, s) := by
  obtain ⟨hhigh, hhighSize⟩ := hexValue?_hexDigit (n / 16) (by omega)
  obtain ⟨hlow, hlowSize⟩ := hexValue?_hexDigit (n % 16) (by omega)
  have hzero : hexValue? '0' = some 0 ∧ ('0' : Char).utf8Size = 1 := by decide
  have hunit : readUnit ('0' :: '0' :: hexDigit (n / 16) :: hexDigit (n % 16) :: s) = .ok (n, s) := by
    have hvalue : n / 16 * 16 + n % 16 = n := by omega
    simp [readUnit, utf8Length, hexValue4?, hhigh, hhighSize, hlow, hlowSize, hzero, hvalue]
  have hplain : isTrailing n = false ∧ isLeading n = false := by
    simp only [isTrailing, isLeading, Bool.and_eq_false_iff, decide_eq_false_iff_not]
    omega
  show readCodePoint _ = _
  simp [readCodePoint, hunit, hplain, bind, Except.bind, pure, Except.pure]

/-- What a step of the reader adds to the characters behind it. -/
def readBefore (c : Char) : Except Fault (List Char × List Char) → Except Fault (List Char × List Char) :=
  Except.map fun read => (c :: read.1, read.2)

/-- A backslash and what is read as an escape behind it are one character. -/
theorem readChars_backslash {c : Char} {r s : List Char} (fuel : Nat) (h : readEscape r = .ok (c, s)) :
    readChars (fuel + 1) ('\\' :: r) = readBefore c (readChars fuel s) := by
  rw [readChars]
  simp only [h, bind, Except.bind]
  cases readChars fuel s <;> rfl

/-- A character that is written as it stands is read as it stands. -/
theorem readChars_plain {c : Char} (fuel : Nat) (s : List Char) (hquote : c ≠ '"') (hslash : c ≠ '\\')
    (hc : 32 ≤ c.toNat) : readChars (fuel + 1) (c :: s) = readBefore c (readChars fuel s) := by
  rw [readChars, if_neg (Nat.not_lt.mpr hc)]
  · cases readChars fuel s <;> rfl
  · exact hquote
  · exact hslash

/-- **Each character is read back by one step,** however it was written. -/
theorem readChars_escapeChar (fuel : Nat) (c : Char) (s : List Char) :
    readChars (fuel + 1) (escapeChar c ++ s) = readBefore c (readChars fuel s) := by
  unfold escapeChar
  repeat' split
  · rename_i hquote
    rw [hquote]
    exact readChars_backslash fuel rfl
  · rename_i hslash
    rw [hslash]
    exact readChars_backslash fuel rfl
  · rename_i hback
    have hc : Char.ofNat 8 = c := by rw [← hback, Char.ofNat_toNat]
    exact readChars_backslash fuel (by rw [← hc]; rfl)
  · rename_i hfeed
    have hc : Char.ofNat 12 = c := by rw [← hfeed, Char.ofNat_toNat]
    exact readChars_backslash fuel (by rw [← hc]; rfl)
  · rename_i hline
    rw [hline]
    exact readChars_backslash fuel rfl
  · rename_i hreturn
    rw [hreturn]
    exact readChars_backslash fuel rfl
  · rename_i htab
    rw [htab]
    exact readChars_backslash fuel rfl
  · rename_i hlow
    refine readChars_backslash fuel ?_
    have hread := readEscape_control hlow s
    rwa [Char.ofNat_toNat] at hread
  · rename_i hquote hslash _ _ _ _ _ hlow
    exact readChars_plain fuel s hquote hslash (Nat.le_of_not_lt hlow)

theorem escapeChar_ne_nil (c : Char) : escapeChar c ≠ [] := by
  unfold escapeChar
  repeat' split
  all_goals exact List.cons_ne_nil _ _

theorem length_le_escapeChars (cs : List Char) : cs.length ≤ (escapeChars cs).length := by
  unfold escapeChars
  induction cs with
  | nil => exact Nat.le_refl 0
  | cons c cs ih =>
      have hpos := List.length_pos_iff.mpr (escapeChar_ne_nil c)
      rw [List.flatMap_cons, List.length_append, List.length_cons]
      omega

theorem readChars_escapeChars {fuel : Nat} (cs s : List Char) (hfuel : cs.length < fuel) :
    readChars fuel (escapeChars cs ++ '"' :: s) = .ok (cs, s) := by
  induction cs generalizing fuel with
  | nil =>
      obtain ⟨fuel, rfl⟩ := Nat.exists_eq_add_of_lt hfuel
      rfl
  | cons c cs ih =>
      obtain ⟨fuel, rfl⟩ : ∃ n, fuel = n + 1 := ⟨fuel - 1, by omega⟩
      rw [List.length_cons] at hfuel
      have hrest := ih (Nat.lt_of_succ_lt_succ hfuel)
      rw [escapeChars] at hrest ⊢
      rw [List.flatMap_cons, List.append_assoc, readChars_escapeChar, hrest]
      rfl

/-- **A string is read back,** behind its opening mark. -/
theorem readString_quoted (text : String) (s : List Char) :
    readString (escapeChars text.toList ++ '"' :: s) = .ok (text, s) := by
  have hfuel : text.toList.length < (escapeChars text.toList ++ '"' :: s).length + 1 := by
    have hle := length_le_escapeChars text.toList
    rw [List.length_append]
    omega
  rw [readString, readChars_escapeChars _ _ hfuel]
  show Except.ok (String.ofList text.toList, s) = _
  rw [String.ofList_toList]

/-! ## Digits -/

/-- Whether a text does not begin with a digit. -/
def NoDigit (s : List Char) : Prop := ∀ c r, s = c :: r → c.isDigit = false

theorem NoDigit.cons {c : Char} {s : List Char} (hc : c.isDigit = false) : NoDigit (c :: s) := by
  intro d r h
  obtain ⟨rfl, rfl⟩ := List.cons.inj h
  exact hc

/-- A run of digits ends where the next character is none. -/
theorem span_digits {ds s : List Char} (hds : ∀ c ∈ ds, c.isDigit = true) (hs : NoDigit s) :
    (ds ++ s).takeWhile Char.isDigit = ds ∧ (ds ++ s).dropWhile Char.isDigit = s := by
  rw [List.takeWhile_append_of_pos hds, List.dropWhile_append_of_pos hds]
  cases s with
  | nil => exact ⟨List.append_nil ds, rfl⟩
  | cons c r =>
      have hc : ¬c.isDigit = true := by simp [hs c r rfl]
      rw [List.takeWhile_cons_of_neg hc, List.dropWhile_cons_of_neg hc]
      exact ⟨List.append_nil ds, rfl⟩

/-- The value of a run of digits, by the library. -/
theorem digitsValue_eq (digits : List Char) : digitsValue digits = Nat.ofDigitChars 10 digits 0 := by
  rw [digitsValue, Nat.ofDigitChars_eq_foldl]
  congr 1
  funext m c
  rw [Nat.mul_comm m 10]
  rfl

/-- The digits of a whole part are read to their end: it begins with a zero only where that is all of it. -/
theorem readUnsigned_digits (negative : Bool) {c : Char} {cs s : List Char}
    (hdigits : ∀ d ∈ c :: cs, d.isDigit = true) (hzero : c = '0' → cs = []) (hs : NoDigit s) :
    readUnsigned negative (c :: cs ++ s) = readFraction negative (c :: cs) s := by
  rw [List.cons_append, readUnsigned.eq_def]
  show (if c = '0' then _ else _) = _
  by_cases hc : c = '0'
  · rw [hzero hc, List.nil_append, if_pos hc]
    cases s with
    | nil => rfl
    | cons d r =>
        show (if d.isDigit = true then _ else _) = _
        rw [hs d r rfl]
        rfl
  · obtain ⟨hrun, hrest⟩ := span_digits (fun d hd => hdigits d (List.mem_cons_of_mem c hd)) hs
    rw [if_neg hc, if_pos (hdigits c List.mem_cons_self), hrun, hrest]

/-! ## Whole numbers -/

/-- Whether what follows a number is none of its own: no digit, no point and no exponent. -/
def EndsNumber (s : List Char) : Prop :=
  ∀ c r, s = c :: r → c.isDigit = false ∧ c ≠ '.' ∧ c ≠ 'e' ∧ c ≠ 'E'

theorem EndsNumber.nil : EndsNumber [] := fun _ _ h => nomatch h

theorem EndsNumber.cons {c : Char} {s : List Char} (hc : c.isDigit = false ∧ c ≠ '.' ∧ c ≠ 'e' ∧ c ≠ 'E') :
    EndsNumber (c :: s) := by
  intro d r h
  obtain ⟨rfl, rfl⟩ := List.cons.inj h
  exact hc

theorem EndsNumber.noDigit {s : List Char} (hs : EndsNumber s) : NoDigit s := fun c r h => (hs c r h).1

theorem isDigit_of_mem_toDigits {n : Nat} {c : Char} (hc : c ∈ Nat.toDigits 10 n) : c.isDigit = true :=
  Nat.isDigit_of_mem_toDigits (by decide) (by decide) hc

/-- The digits of a number begin with a zero only where there is no other. -/
theorem toDigits_split (n : Nat) : ∃ d ds, Nat.toDigits 10 n = d :: ds ∧ (d = '0' → ds = []) := by
  induction n using Nat.strongRecOn with
  | ind n ih =>
    by_cases hn : n < 10
    · exact ⟨_, [], Nat.toDigits_of_lt_base hn, fun _ => rfl⟩
    · have hge : 10 ≤ n := Nat.le_of_not_lt hn
      have hstep := Nat.toDigits_of_base_le (b := 10) (by decide) hge
      obtain ⟨d, ds, hdigits, hzero⟩ := ih (n / 10) (Nat.div_lt_self (by omega) (by decide))
      refine ⟨d, ds ++ [(n % 10).digitChar], by rw [hstep, hdigits]; rfl, fun hd => ?_⟩
      -- a leading zero would make the tenth part zero
      have hvalue : Nat.ofDigitChars 10 (Nat.toDigits 10 (n / 10)) 0 = n / 10 := Nat.ofDigitChars_ten_toDigits
      rw [hdigits, hzero hd, hd] at hvalue
      have hnone : n / 10 = 0 := hvalue.symm
      omega

/-- The value of the digits of a number is the number. -/
theorem digitsValue_toDigits (n : Nat) : digitsValue (Nat.toDigits 10 n) = n := by
  rw [digitsValue_eq, Nat.ofDigitChars_ten_toDigits]

/-- A number that ends where its whole part does. -/
theorem readFraction_whole (negative : Bool) (whole : List Char) {s : List Char} (hs : EndsNumber s) :
    readFraction negative whole s = finishWhole negative whole s := by
  rw [readFraction.eq_def]
  split
  · exact absurd rfl (hs _ _ rfl).2.1
  · rename_i c r _
    obtain ⟨-, -, he, hE⟩ := hs c r rfl
    rw [if_neg (by simp [he, hE])]
  · rfl

/-- The digits of a number are read to their end. -/
theorem readUnsigned_toDigits (negative : Bool) (n : Nat) {s : List Char} (hs : EndsNumber s) :
    readUnsigned negative (Nat.toDigits 10 n ++ s) = finishWhole negative (Nat.toDigits 10 n) s := by
  obtain ⟨d, ds, hdigits, hzero⟩ := toDigits_split n
  have hall : ∀ c ∈ d :: ds, c.isDigit = true := fun c hc => isDigit_of_mem_toDigits (hdigits ▸ hc)
  rw [hdigits, readUnsigned_digits negative hall hzero hs.noDigit]
  exact readFraction_whole negative (d :: ds) hs

/-- A number that begins with a digit has no sign. -/
theorem readNumber_digit {c : Char} (hc : c.isDigit = true) (s : List Char) :
    readNumber (c :: s) = readUnsigned false (c :: s) := by
  rw [readNumber]
  rintro r heq
  rw [(List.cons.inj heq).1] at hc
  exact absurd hc (by decide)

/-- **A whole number within 64 bits is read back,** in front of what does not go on with it. -/
theorem readNumber_integerChars {n : Int} (hn : isWide n = true) {s : List Char} (hs : EndsNumber s) :
    readNumber (integerChars n ++ s) = .ok (.integer n, s) := by
  unfold integerChars
  by_cases hneg : n < 0
  · have hvalue : (-(n.natAbs : Int)) = n := by omega
    have hzero : (n == 0) = false := by simpa using Int.ne_of_lt hneg
    rw [if_pos hneg, List.cons_append, readNumber, readUnsigned_toDigits true n.natAbs hs, finishWhole,
      digitsValue_toDigits]
    simp only [if_true, hvalue, hzero, hn, Bool.and_false, Bool.false_eq_true, if_false]
  · have hvalue : (n.natAbs : Int) = n := by omega
    rw [if_neg hneg]
    have hunsigned : readNumber (Nat.toDigits 10 n.natAbs ++ s) =
        readUnsigned false (Nat.toDigits 10 n.natAbs ++ s) := by
      obtain ⟨d, ds, hdigits, -⟩ := toDigits_split n.natAbs
      rw [hdigits]
      exact readNumber_digit (isDigit_of_mem_toDigits (n := n.natAbs) (by simp [hdigits])) (ds ++ s)
    rw [hunsigned, readUnsigned_toDigits false n.natAbs hs, finishWhole, digitsValue_toDigits]
    simp only [Bool.false_eq_true, if_false, hvalue, hn, Bool.false_and, if_true]

end JobWorker.Json
