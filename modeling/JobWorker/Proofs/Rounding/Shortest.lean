import JobWorker.Proofs.Json.Tokens
import JobWorker.Proofs.Rounding.Doubles

/-!
# `JobWorker.Proofs.Rounding.Shortest` — the shortest decimal is a decimal of the number

The search for the shortest decimal looks at the two neighbours of a double on grids that get finer by a digit each
time. On the grid of seventeen digits one of them always reads back, since their distance is less than that of two
doubles, and next to a power of two less than half of it. So the search ends with a decimal that is rounded to the
double, and cutting its zeros at the end does not change what it says.

## Contents
- **Digits.** `Decimal.Says`, `trimmed_spec`, `Decimal.ofGrid_says`.
- **Grids.** `Decimal.gridUnit`, `Decimal.readsBack_of_onGrid`, `Decimal.readsBack_of_near`, `Decimal.onGrid_seventeen`.
- **Search.** `Decimal.search_spec`, `Decimal.shortest_says`.
-/

namespace JobWorker

/-! ## Digits -/

/-- What the decimal says: its digits, of which the first is not zero, in front of the power of ten of the last. -/
structure Decimal.Says (d : Decimal) (x : Rat) : Prop where
  digits : ∀ c ∈ d.digits, c.isDigit = true
  leading : ∃ c cs, d.digits = c :: cs ∧ c ≠ '0'
  value : x = (Nat.ofDigitChars 10 d.digits 0 : Nat) * (10 : Rat) ^ (d.exponent - (d.digits.length - 1 : Nat))

/-- Digits without the zeros at their end. -/
theorem trimmed_spec (digits : List Char) :
    ∃ k, digits = (digits.reverse.dropWhile (· == '0')).reverse ++ List.replicate k '0' := by
  refine ⟨(digits.reverse.takeWhile (· == '0')).length, ?_⟩
  have hzeros : digits.reverse.takeWhile (· == '0') =
      List.replicate (digits.reverse.takeWhile (· == '0')).length '0' := by
    refine List.eq_replicate_of_mem fun c hc => ?_
    simpa using List.all_eq_true.mp List.all_takeWhile c hc
  rw [← List.reverse_replicate, ← hzeros, ← List.reverse_append, List.takeWhile_append_dropWhile, List.reverse_reverse]

namespace Decimal

variable {q x : Rat} {count n m : Nat} {e : Int}

/-- The distance of two neighbours on the grid of `count` digits. -/
def gridUnit (q : Rat) (count : Nat) : Rat := (10 : Rat) ^ (Int.log 10 q - (count - 1 : Nat))

theorem gridUnit_pos (q : Rat) (count : Nat) : 0 < gridUnit q count := zpow_pos (by norm_num) _

theorem gridUnit_eq (hq : 0 < q) : ratPow 10 (log10Floor q - (count - 1 : Nat)) = gridUnit q count := by
  rw [ratPow_eq_zpow, log10Floor_eq hq, gridUnit, Nat.cast_ofNat]

/-- A point of a grid says what it stands for: the zeros that are cut are made up for by the exponent. -/
theorem ofGrid_says (hq : 0 < q) (hn : 0 < n) : (ofGrid q count n).Says (n * gridUnit q count) := by
  obtain ⟨c, cs, hsplit, hzero⟩ := Json.toDigits_split n
  have hvalue : Nat.ofDigitChars 10 (Nat.toDigits 10 n) 0 = n := Nat.ofDigitChars_ten_toDigits
  have hleading : c ≠ '0' := by
    rintro rfl
    rw [hsplit, hzero rfl] at hvalue
    exact hn.ne hvalue
  -- the zeros cut at the end are a power of ten, which goes to the exponent
  obtain ⟨k, hk⟩ := trimmed_spec (Nat.toDigits 10 n)
  unfold ofGrid
  dsimp only
  generalize (List.dropWhile (· == '0') (Nat.toDigits 10 n).reverse).reverse = digits at hk
  have hdigits : digits ≠ [] := by
    rintro rfl
    have hmem : c ∈ List.replicate k '0' := by
      rw [List.nil_append] at hk
      rw [← hk, hsplit]
      exact List.mem_cons_self
    exact hleading (List.eq_of_mem_replicate hmem)
  obtain ⟨c', cs', rfl⟩ := List.exists_cons_of_ne_nil hdigits
  refine ⟨fun d hd => ?_, ⟨c', cs', rfl, ?_⟩, ?_⟩
  · exact Json.isDigit_of_mem_toDigits (n := n) (hk ▸ List.mem_append_left _ hd)
  · rw [hsplit] at hk
    rw [← (List.cons.inj hk).1]
    exact hleading
  · have hlength : (Nat.toDigits 10 n).length = cs'.length + 1 + k := by
      rw [hk, List.length_append, List.length_cons, List.length_replicate]
    have hwhole : (n : Rat) = 10 ^ k * (Nat.ofDigitChars 10 (c' :: cs') 0 : Nat) := by
      rw [hk, Nat.ofDigitChars_append, Nat.ofDigitChars_replicate_zero] at hvalue
      exact_mod_cast hvalue.symm
    have hexponent : log10Floor q - (count - 1 : Nat) + ((Nat.toDigits 10 n).length - 1) - ((c' :: cs').length - 1 : Nat) =
        (k : Int) + (log10Floor q - (count - 1 : Nat)) := by
      rw [hlength, List.length_cons]
      push_cast
      omega
    rw [hexponent, zpow_add₀ (by norm_num), zpow_natCast, hwhole, ← gridUnit_eq hq, ratPow_eq_zpow, Nat.cast_ofNat]
    ring

/-! ## Grids -/

/-- The point of a grid that is chosen reads back. -/
theorem readsBack_of_onGrid (hq : 0 < q) (h : onGrid q count = some n) :
    readsBack q (n * gridUnit q count) = true := by
  unfold onGrid at h
  simp only [gridUnit_eq hq] at h
  generalize (q / gridUnit q count).floor.toNat = down at h ⊢
  split at h
  · cases h
  · rename_i hlower _
    cases h
    exact hlower
  · rename_i _ hupper
    cases h
    exact hupper
  · rename_i hlower hupper
    split at h
    · cases h
      exact hlower
    split at h
    · cases h
      exact hupper
    split at h
    · cases h
      exact hlower
    · cases h
      exact hupper

/-- A grid with a neighbour that reads back has a point that is chosen. -/
theorem onGrid_isSome (hq : 0 < q)
    (h : readsBack q ((q / gridUnit q count).floor.toNat * gridUnit q count) = true ∨
      readsBack q (((q / gridUnit q count).floor.toNat + 1 : Nat) * gridUnit q count) = true) :
    ∃ n, onGrid q count = some n := by
  unfold onGrid
  simp only [gridUnit_eq hq]
  generalize (q / gridUnit q count).floor.toNat = down at h
  generalize hlower : readsBack q (down * gridUnit q count) = lower at h
  generalize hupper : readsBack q ((down + 1 : Nat) * gridUnit q count) = upper at h
  cases lower <;> cases upper
  · rcases h with h | h <;> cases h
  · exact ⟨_, rfl⟩
  · exact ⟨_, rfl⟩
  · refine Option.isSome_iff_exists.mp ?_
    dsimp only
    repeat' split
    all_goals rfl

/-- What is nearer to a double than its neighbours allow reads back. -/
theorem readsBack_of_near (h : Binary64.Place q m e)
    (hnear : |x - q| < if m = 2 ^ 52 ∧ -1074 < e then (2 : Rat) ^ e / 4 else 2 ^ e / 2) : readsBack q x = true := by
  have hu := Binary64.unit_pos e
  rw [h.readsBack_iff]
  obtain ⟨hlow, hhigh⟩ := abs_lt.mp hnear
  dsimp only
  split at hnear
  · rename_i hpower
    rw [if_pos hpower] at hlow hhigh ⊢
    split
    · constructor <;> linarith
    · constructor <;> linarith
  · rename_i hpower
    rw [if_neg hpower] at hlow hhigh ⊢
    split
    · constructor <;> linarith
    · constructor <;> linarith

/-- On the grid of seventeen digits half the distance of two points is less than what a number may be away from the
double that it reads back as. -/
theorem gridUnit_seventeen_lt (h : Binary64.Place q m e) :
    gridUnit q 17 / 2 < if m = 2 ^ 52 ∧ -1074 < e then (2 : Rat) ^ e / 4 else 2 ^ e / 2 := by
  have hu := Binary64.unit_pos e
  have hvalue := h.value
  have hfine : gridUnit q 17 * 10 ^ 16 ≤ m * 2 ^ e := by
    rw [← hvalue]
    calc gridUnit q 17 * 10 ^ 16 = (10 : Rat) ^ Int.log 10 q := by
          rw [gridUnit, show ((17 - 1 : Nat) : Int) = (16 : Nat) from rfl, zpow_sub₀ (by norm_num), zpow_natCast]
          field_simp
      _ ≤ q := by
          have hlog := Int.zpow_log_le_self (b := 10) (by norm_num) h.pos'
          exact_mod_cast hlog
  split
  · rename_i hpower
    rw [hpower.1] at hfine
    push_cast at hfine
    linarith
  · have hlt : (m : Rat) < 2 ^ 53 := by exact_mod_cast h.lt
    have hless : (m : Rat) * 2 ^ e < 2 ^ 53 * 2 ^ e := mul_lt_mul_of_pos_right hlt hu
    linarith

/-- **Seventeen digits are enough:** the nearer neighbour on their grid reads back. -/
theorem onGrid_seventeen (h : Binary64.Place q m e) : ∃ n, onGrid q 17 = some n := by
  have hunit := gridUnit_pos q 17
  have hnear := gridUnit_seventeen_lt h
  obtain ⟨hbelow, habove⟩ := floor_spec (div_pos h.pos' hunit).le
  refine onGrid_isSome h.pos' ?_
  generalize (q / gridUnit q 17).floor.toNat = down at hbelow habove
  rw [le_div_iff₀ hunit] at hbelow
  rw [div_lt_iff₀ hunit] at habove
  -- the number lies between two points of the grid, and so no further than half their distance from one of them
  by_cases hlower : q - down * gridUnit q 17 ≤ gridUnit q 17 / 2
  · refine .inl (readsBack_of_near h (lt_of_le_of_lt ?_ hnear))
    rw [abs_le]
    constructor <;> linarith
  · refine .inr (readsBack_of_near h (lt_of_le_of_lt ?_ hnear))
    push_cast
    rw [abs_le]
    constructor <;> linarith

/-! ## Search -/

/-- A search that passes a grid with a point to choose ends at one. -/
theorem search_spec {fuel k : Nat} (hle : count ≤ k) (hlt : k < count + fuel) (hsome : ∃ n, onGrid q k = some n) :
    ∃ c n, onGrid q c = some n ∧ search q fuel count = ofGrid q c n := by
  induction fuel generalizing count with
  | zero => omega
  | succ fuel ih =>
      rw [search]
      cases hgrid : onGrid q count with
      | some n => exact ⟨count, n, hgrid, rfl⟩
      | none =>
          have hne : k ≠ count := by
            rintro rfl
            obtain ⟨n, hn⟩ := hsome
            rw [hgrid] at hn
            cases hn
          exact ih (by omega) (by omega)

/-- **The shortest decimal of a positive double says a number that is rounded to it.** -/
theorem shortest_says (h : Binary64.Place q m e) : ∃ x, (shortest q).Says x ∧ 0 < x ∧ Binary64.round x = .finite q := by
  obtain ⟨c, n, hgrid, hsearch⟩ := search_spec (by norm_num : 1 ≤ 17) (by norm_num : 17 < 1 + 17) (onGrid_seventeen h)
  have hround := h.round_of_readsBack (readsBack_of_onGrid h.pos' hgrid)
  have hn : 0 < n := by
    refine Nat.pos_of_ne_zero ?_
    rintro rfl
    rw [Nat.cast_zero, zero_mul] at hround
    cases hround
    exact absurd h.pos' (lt_irrefl _)
  refine ⟨n * gridUnit q c, ?_, mul_pos (by exact_mod_cast hn) (gridUnit_pos q c), hround⟩
  rw [shortest, hsearch]
  exact ofGrid_says h.pos' hn

end Decimal

end JobWorker
