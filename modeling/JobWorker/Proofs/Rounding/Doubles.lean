import JobWorker.Number.Shortest
import JobWorker.Proofs.Rounding

/-!
# `JobWorker.Proofs.Rounding.Doubles` — numbers that rounding leaves as they are

A double is a number that is rounded to itself. Its magnitude is a whole multiple of the distance of its neighbours,
with a factor below `2^53`. What lies no further from it than half that distance is rounded to it; only below a power
of two the neighbours are closer, and half as far is enough there. So a decimal between these ends reads back as the
double, whatever else it is.

## Contents
- **Leading digits.** `decimalLength_spec`, `log10Floor_eq`.
- **Nearest.** `nearestEven_eq`, `le_nearestEven_of_le`, `nearestEven_le_of_lt`.
- **Places.** `Binary64.exponent_eq`, `Binary64.Place`, `Binary64.Place.round_eq`, `Binary64.place_of_round`.
- **Doubles.** `Extended.IsDouble`, `Binary64.isDouble_round`.
- **Range.** `Binary64.lt_of_round`, `Binary64.le_of_round`.
- **Reading back.** `Binary64.Place.within`, `Binary64.Place.round_of_same`, `Binary64.Place.round_of_power`,
  `Binary64.Place.round_of_readsBack`.
-/

namespace JobWorker

/-! ## Leading digits -/

variable {q x : Rat} {n : Nat}

/-- A power whose exponent is raised. -/
theorem zpow_shift {b : Rat} (hb : b ≠ 0) (e : Int) (k : Nat) : b ^ (e + k) = b ^ k * b ^ e := by
  rw [zpow_add₀ hb, zpow_natCast, mul_comm]

/-- How many digits a positive number has. -/
theorem decimalLength_spec (hn : 0 < n) : ∃ k, decimalLength n = k + 1 ∧ 10 ^ k ≤ n ∧ n < 10 ^ (k + 1) := by
  have hiff : ∀ k, 0 < k → (decimalLength n ≤ k ↔ n < 10 ^ k) := fun k hk => Nat.length_toDigits_le_iff (by decide) hk
  obtain ⟨k, hk⟩ : ∃ k, decimalLength n = k + 1 := ⟨decimalLength n - 1, (Nat.succ_pred_eq_of_pos Nat.length_toDigits_pos).symm⟩
  refine ⟨k, hk, ?_, (hiff (k + 1) k.succ_pos).mp hk.le⟩
  rcases Nat.eq_zero_or_pos k with rfl | hpos
  · exact hn
  · have hmore := mt (hiff k hpos).mpr
    omega

theorem log10Floor_eq (hq : 0 < q) : log10Floor q = Int.log 10 q := by
  obtain ⟨heq, hnum⟩ := eq_num_div_den hq
  obtain ⟨k, hk, hlow, hhigh⟩ := decimalLength_spec hnum
  obtain ⟨l, hl, hlow', hhigh'⟩ := decimalLength_spec q.den_pos
  obtain ⟨hle, hlt⟩ := leading_of_quotient 10 (by norm_num) hlow hhigh hlow' hhigh'
  rw [← heq] at hle hlt
  have hlength : (decimalLength q.num.toNat : Int) - decimalLength q.den = k - l := by omega
  unfold log10Floor
  dsimp only
  rw [hlength]
  exact leading_eq (by norm_num) hq hle hlt

/-! ## Nearest -/

/-- A whole number is the nearest one where it is at most a half away, and less than that if it is odd. -/
theorem nearestEven_eq (hq : 0 ≤ q) (hlow : n - 1 / 2 ≤ q) (hhigh : q ≤ n + 1 / 2)
    (hodd : n % 2 = 0 ∨ n - 1 / 2 < q ∧ q < n + 1 / 2) : nearestEven q = n := by
  obtain ⟨hbelow, habove⟩ := floor_spec hq
  unfold nearestEven
  dsimp only
  generalize q.floor.toNat = down at hbelow habove
  have hcases : down = n ∨ n = down + 1 := by
    have hle : (down : Rat) < n + 1 := by linarith
    have hge : (n : Rat) < down + 2 := by linarith
    have hle' : down < n + 1 := by exact_mod_cast hle
    have hge' : n < down + 2 := by exact_mod_cast hge
    omega
  rcases hcases with rfl | rfl
  · split
    · rfl
    split
    · linarith
    split
    · rfl
    · -- half-way above an odd number
      rcases hodd with heven | hinside
      · omega
      · linarith
  · push_cast at hlow hhigh hodd
    split
    · linarith
    split
    · rfl
    split
    · -- half-way below an odd number
      rcases hodd with heven | hinside
      · omega
      · linarith
    · rfl

/-- What is at least a whole number is rounded to at least that. -/
theorem le_nearestEven_of_le (h : (n : Rat) ≤ q) : n ≤ nearestEven q := by
  have hq : 0 ≤ q := le_trans (Nat.cast_nonneg n) h
  have hfloor : n ≤ q.floor.toNat := by
    have hbelow : (n : Rat) < q.floor.toNat + 1 := lt_of_le_of_lt h (floor_spec hq).2
    exact Nat.lt_succ_iff.mp (by exact_mod_cast hbelow)
  unfold nearestEven
  dsimp only
  split
  · exact hfloor
  split
  · omega
  split
  · exact hfloor
  · omega

/-- What is less than a whole number is rounded to at most that. -/
theorem nearestEven_le_of_lt (hq : 0 ≤ q) (h : q < n) : nearestEven q ≤ n := by
  have hfloor : q.floor.toNat < n := by
    have hbelow : ((q.floor.toNat : Nat) : Rat) < n := lt_of_le_of_lt (floor_spec hq).1 h
    exact_mod_cast hbelow
  unfold nearestEven
  dsimp only
  split
  · omega
  split
  · omega
  split
  · omega
  · omega

/-! ## Places -/

namespace Binary64

variable {m : Nat} {e : Int}

theorem lt_exponent (hq : 0 < q) : q < (2 : Rat) ^ (exponent q + 53) := by
  have hlog : q < (2 : Rat) ^ (Int.log 2 q + 1) := Int.lt_zpow_succ_log_self one_lt_two q
  refine lt_of_lt_of_le hlog (zpow_le_zpow_right₀ one_le_two ?_)
  rw [exponent, log2Floor_eq hq]
  omega

theorem exponent_le (hq : 0 < q) : exponent q = -1074 ∨ -1074 < exponent q ∧ (2 : Rat) ^ (exponent q + 52) ≤ q := by
  have hlog : (2 : Rat) ^ Int.log 2 q ≤ q := Int.zpow_log_le_self one_lt_two hq
  rw [exponent, log2Floor_eq hq]
  rcases le_or_gt (Int.log 2 q - 52) (-1074) with h | h
  · exact .inl (max_eq_right h)
  · rw [max_eq_left h.le, sub_add_cancel]
    exact .inr ⟨h, hlog⟩

/-- The exponent of a number is told by the power of two that it stays below and the one it reaches, if any. -/
theorem exponent_eq (hq : 0 < q) (hleast : -1074 ≤ e) (hhigh : q < (2 : Rat) ^ (e + 53))
    (hlow : e = -1074 ∨ (2 : Rat) ^ (e + 52) ≤ q) : exponent q = e := by
  have hlog : Int.log 2 q < e + 53 := (Int.lt_zpow_iff_log_lt one_lt_two hq).mp hhigh
  have hreach : e = -1074 ∨ e + 52 ≤ Int.log 2 q :=
    hlow.imp_right (Int.zpow_le_iff_le_log one_lt_two hq).mp
  rw [exponent, log2Floor_eq hq]
  omega

/-- What a positive number is rounded to, through its place on the grid. -/
theorem round_of_significand (hq : 0 < q) (hm : significand q = m) (he : exponent q = e) :
    round q = if (2 : Rat) ^ (1024 : Int) ≤ m * 2 ^ e then .infinity false
      else if (m : Rat) * 2 ^ e = 0 then .finite 0 else .finite (m * 2 ^ e) := by
  have hsign : ¬q < 0 := not_lt.mpr hq.le
  unfold round
  simp only [if_neg hq.ne', if_neg hsign, decide_eq_false hsign, hm, he, ratPow_eq_zpow, Nat.cast_ofNat]
  rfl

/-- The place of a positive double: a factor below `2^53` and a power of two, the least one or a factor that needs all
53 bits. -/
structure Place (q : Rat) (m : Nat) (e : Int) : Prop where
  value : q = m * 2 ^ e
  pos : 0 < m
  lt : m < 2 ^ 53
  least : -1074 ≤ e
  normal : e = -1074 ∨ 2 ^ 52 ≤ m
  below : q < 2 ^ (1024 : Int)

theorem unit_pos (e : Int) : (0 : Rat) < 2 ^ e := zpow_pos two_pos e

namespace Place

theorem pos' (h : Place q m e) : 0 < q := by
  rw [h.value]
  exact mul_pos (by exact_mod_cast h.pos) (unit_pos e)

theorem exponent_eq (h : Place q m e) : exponent q = e := by
  have hu := unit_pos e
  refine Binary64.exponent_eq h.pos' h.least ?_ (h.normal.imp_right fun hm => ?_)
  · have hlt : (m : Rat) < 2 ^ 53 := by exact_mod_cast h.lt
    rw [h.value, show e + 53 = e + (53 : Nat) from rfl, zpow_shift two_ne_zero]
    exact mul_lt_mul_of_pos_right hlt hu
  · have hle : (2 : Rat) ^ 52 ≤ m := by exact_mod_cast hm
    rw [h.value, show e + 52 = e + (52 : Nat) from rfl, zpow_shift two_ne_zero]
    exact mul_le_mul_of_nonneg_right hle hu.le

theorem significand_eq (h : Place q m e) : significand q = m := by
  rw [significand, h.exponent_eq, ratPow_eq_zpow, Nat.cast_ofNat, h.value, mul_div_cancel_right₀ _ (unit_pos e).ne']
  exact nearestEven_eq (Nat.cast_nonneg m) (by linarith) (by linarith) (.inr ⟨by linarith, by linarith⟩)

/-- A number that has a place is a double. -/
theorem round_eq (h : Place q m e) : round q = .finite q := by
  rw [round_of_significand h.pos' h.significand_eq h.exponent_eq, ← h.value, if_neg (not_le.mpr h.below),
    if_neg h.pos'.ne']

end Place

/-- A whole multiple of a power of two has a place where its factor is not too great. -/
theorem exists_place (hm : 0 < m) (hle : m ≤ 2 ^ 53) (hleast : -1074 ≤ e) (hnormal : e = -1074 ∨ 2 ^ 52 ≤ m)
    (hbelow : (m : Rat) * 2 ^ e < 2 ^ (1024 : Int)) : ∃ m' e', Place ((m : Rat) * 2 ^ e) m' e' := by
  rcases hle.lt_or_eq with hlt | rfl
  · exact ⟨m, e, rfl, hm, hlt, hleast, hnormal, hbelow⟩
  · refine ⟨2 ^ 52, e + 1, ?_, by norm_num, by norm_num, by omega, .inr le_rfl, hbelow⟩
    rw [zpow_add_one₀ two_ne_zero]
    push_cast
    ring

/-- What a positive number is rounded to has a place, unless it is zero or too great. -/
theorem place_of_round {r : Rat} (hq : 0 < q) (h : round q = .finite r) : r = 0 ∨ ∃ m e, Place r m e := by
  have hu := unit_pos (exponent q)
  rw [round_of_significand hq rfl rfl] at h
  split at h
  · cases h
  split at h
  · cases h
    exact .inl rfl
  · rename_i hbelow hnonzero
    cases h
    -- rounding may carry the factor up to `2^53`, which is a place of the next power of two
    refine .inr (exists_place ?_ ?_ ?_ ?_ (not_le.mp hbelow))
    · refine Nat.pos_of_ne_zero fun hzero => hnonzero ?_
      rw [hzero, Nat.cast_zero, zero_mul]
    · refine nearestEven_le_of_lt ?_ ?_
      · rw [ratPow_eq_zpow]
        positivity
      · have hlt := lt_exponent hq
        rw [show exponent q + 53 = exponent q + (53 : Nat) from rfl, zpow_shift two_ne_zero] at hlt
        rw [ratPow_eq_zpow, Nat.cast_ofNat, div_lt_iff₀ hu]
        exact_mod_cast hlt
    · exact le_max_right _ _
    · refine (exponent_le hq).imp_right fun hreach => le_nearestEven_of_le ?_
      have hle := hreach.2
      rw [show exponent q + 52 = exponent q + (52 : Nat) from rfl, zpow_shift two_ne_zero] at hle
      rw [ratPow_eq_zpow, Nat.cast_ofNat, le_div_iff₀ hu]
      exact_mod_cast hle

/-- A positive number that rounding leaves as it is has a place. -/
theorem place_of_isDouble (hq : 0 < q) (h : round q = .finite q) : ∃ m e, Place q m e :=
  (place_of_round hq h).resolve_left hq.ne'

/-- What a negative number is rounded to: the same with the other sign. -/
theorem round_neg_of_significand (hq : 0 < q) (hm : significand q = m) (he : exponent q = e) :
    round (-q) = if (2 : Rat) ^ (1024 : Int) ≤ m * 2 ^ e then .infinity true
      else if (m : Rat) * 2 ^ e = 0 then .negativeZero else .finite (-(m * 2 ^ e)) := by
  have hsign : -q < 0 := neg_neg_of_pos hq
  unfold round
  simp only [if_neg hsign.ne, if_pos hsign, decide_eq_true hsign, neg_neg, hm, he, ratPow_eq_zpow, Nat.cast_ofNat]
  rfl

/-- Rounding keeps signs apart. -/
theorem round_neg_iff {r : Rat} (hq : 0 < q) (hr : r ≠ 0) : round (-q) = .finite (-r) ↔ round q = .finite r := by
  rw [round_of_significand hq rfl rfl, round_neg_of_significand hq rfl rfl]
  generalize (significand q : Rat) * 2 ^ exponent q = rounded
  split
  · constructor <;> exact fun h => nomatch h
  split
  · constructor
    · exact fun h => nomatch h
    · intro h
      exact absurd (Extended.finite.inj h).symm hr
  · rw [Extended.finite.injEq, Extended.finite.injEq, neg_inj]

end Binary64

/-! ## Doubles -/

/-- Whether a number is one of the double-precision format: rounding leaves it as it is. The special values are. -/
def Extended.IsDouble : Extended → Prop
  | .finite q => Binary64.round q = .finite q
  | _         => True

namespace Binary64

/-- **Rounding gives a double.** -/
theorem isDouble_round (q : Rat) : (round q).IsDouble := by
  rcases lt_trichotomy q 0 with hneg | rfl | hpos
  · obtain ⟨p, hp, rfl⟩ : ∃ p, 0 < p ∧ q = -p := ⟨-q, neg_pos.mpr hneg, (neg_neg q).symm⟩
    rw [round_neg_of_significand hp rfl rfl]
    split
    · trivial
    split
    · trivial
    · rename_i hbelow hnonzero
      have hround : round p = .finite (significand p * 2 ^ exponent p) := by
        rw [round_of_significand hp rfl rfl, if_neg hbelow, if_neg hnonzero]
      obtain ⟨m, e, hplace⟩ := (place_of_round hp hround).resolve_left hnonzero
      exact (round_neg_iff hplace.pos' hplace.pos'.ne').mpr hplace.round_eq
  · rfl
  · cases h : round q with
    | finite r =>
        rcases place_of_round hpos h with rfl | ⟨m, e, hplace⟩
        · rfl
        · exact hplace.round_eq
    | nan | infinity _ | negativeZero => trivial

/-! ## Range -/

/-- What is rounded to a finite number stays below `2^1024`. -/
theorem lt_of_round {r : Rat} (hq : 0 < q) (h : round q = .finite r) : q < 2 ^ (1024 : Int) := by
  by_contra hlarge
  have hu := unit_pos (exponent q)
  have hgreat : 971 < exponent q := by
    by_contra hsmall
    have hexponent : exponent q + 53 ≤ 1024 := by omega
    exact hlarge ((lt_exponent hq).trans_le (zpow_le_zpow_right₀ one_le_two hexponent))
  have hrounded : (2 : Rat) ^ (1024 : Int) ≤ significand q * 2 ^ exponent q := by
    obtain ⟨-, hle⟩ := (exponent_le hq).resolve_left (by omega)
    have hfactor : (2 : Rat) ^ 52 ≤ significand q := by
      rw [show exponent q + 52 = exponent q + (52 : Nat) from rfl, zpow_shift two_ne_zero] at hle
      have hsignificand : 2 ^ 52 ≤ significand q := by
        refine le_nearestEven_of_le ?_
        rw [ratPow_eq_zpow, Nat.cast_ofNat, le_div_iff₀ hu]
        exact_mod_cast hle
      exact_mod_cast hsignificand
    calc (2 : Rat) ^ (1024 : Int) ≤ 2 ^ (exponent q + (52 : Nat)) := zpow_le_zpow_right₀ one_le_two (by omega)
      _ = 2 ^ 52 * 2 ^ exponent q := zpow_shift two_ne_zero _ _
      _ ≤ significand q * 2 ^ exponent q := mul_le_mul_of_nonneg_right hfactor hu.le
  rw [round_of_significand hq rfl rfl, if_pos hrounded] at h
  cases h

/-- What is rounded to a finite number other than zero is at least half the least double. -/
theorem le_of_round {r : Rat} (hq : 0 < q) (h : round q = .finite r) (hr : r ≠ 0) : 2 ^ (-1075 : Int) ≤ q := by
  by_contra hsmall
  have hexponent : exponent q = -1074 :=
    exponent_eq hq le_rfl ((not_le.mp hsmall).trans (zpow_lt_zpow_right₀ one_lt_two (by norm_num))) (.inl rfl)
  have hscaled : q / (2 : Rat) ^ (-1074 : Int) < 1 / 2 := by
    have hhalf : (2 : Rat) ^ (-1075 : Int) = 1 / 2 * 2 ^ (-1074 : Int) := by
      rw [show (-1075 : Int) = -1074 - 1 from rfl, zpow_sub_one₀ two_ne_zero]
      ring
    rw [div_lt_iff₀ (unit_pos _), ← hhalf]
    exact not_le.mp hsmall
  have hpositive : 0 ≤ q / (2 : Rat) ^ (-1074 : Int) := div_nonneg hq.le (unit_pos _).le
  have hsignificand : significand q = 0 := by
    rw [significand, hexponent, ratPow_eq_zpow, Nat.cast_ofNat]
    generalize q / (2 : Rat) ^ (-1074 : Int) = scaled at hscaled hpositive
    exact nearestEven_eq hpositive (by push_cast; linarith) (by push_cast; linarith) (.inl rfl)
  rw [round_of_significand hq hsignificand hexponent, Nat.cast_zero, zero_mul, if_neg (not_le.mpr (unit_pos _)),
    if_pos rfl] at h
  cases h
  exact hr rfl

/-! ## Reading back -/

variable {m : Nat} {e : Int}

/-- The ends between which a number reads back as a double, in terms of its place. -/
theorem Place.readsBack_iff (h : Place q m e) : Decimal.readsBack q x = true ↔
    let low := if m = 2 ^ 52 ∧ -1074 < e then q - 2 ^ e / 4 else q - 2 ^ e / 2
    if m % 2 = 0 then low ≤ x ∧ x ≤ q + 2 ^ e / 2 else low < x ∧ x < q + 2 ^ e / 2 := by
  unfold Decimal.readsBack
  simp only [h.exponent_eq, h.significand_eq, ratPow_eq_zpow, Nat.cast_ofNat]
  rw [show (4503599627370496 : Nat) = 2 ^ 52 from rfl]
  split <;> exact decide_eq_true_iff

/-- What reads back as a double is at most half a unit of its place away, and less than that where the factor is odd. -/
theorem Place.within (h : Place q m e) (hx : Decimal.readsBack q x = true) :
    (q - 2 ^ e / 2 ≤ x ∧ x ≤ q + 2 ^ e / 2) ∧ (m % 2 = 0 ∨ q - 2 ^ e / 2 < x ∧ x < q + 2 ^ e / 2) := by
  have hu := unit_pos e
  have hinside := h.readsBack_iff.mp hx
  dsimp only at hinside
  by_cases heven : m % 2 = 0
  · rw [if_pos heven] at hinside
    refine ⟨⟨le_trans ?_ hinside.1, hinside.2⟩, .inl heven⟩
    split <;> linarith
  · rw [if_neg heven] at hinside
    have hstrict : q - 2 ^ e / 2 < x := by
      refine lt_of_le_of_lt ?_ hinside.1
      split <;> linarith
    exact ⟨⟨hstrict.le, hinside.2.le⟩, .inr ⟨hstrict, hinside.2⟩⟩

/-- A number whose neighbours are as far apart as those of the double is rounded to the nearest of them. -/
theorem Place.round_of_same (h : Place q m e) (hpos : 0 < x) (hexponent : exponent x = e)
    (hends : q - 2 ^ e / 2 ≤ x ∧ x ≤ q + 2 ^ e / 2)
    (hodd : m % 2 = 0 ∨ q - 2 ^ e / 2 < x ∧ x < q + 2 ^ e / 2) : round x = .finite q := by
  have hu := unit_pos e
  have hvalue := h.value
  have hscaled : (m : Rat) - 1 / 2 ≤ x / 2 ^ e ∧ x / 2 ^ e ≤ m + 1 / 2 := by
    rw [le_div_iff₀ hu, div_le_iff₀ hu]
    constructor <;> nlinarith
  have hsignificand : significand x = m := by
    rw [significand, hexponent, ratPow_eq_zpow, Nat.cast_ofNat]
    refine nearestEven_eq (div_pos hpos hu).le hscaled.1 hscaled.2 (hodd.imp_right fun hstrict => ?_)
    rw [lt_div_iff₀ hu, div_lt_iff₀ hu]
    constructor <;> nlinarith
  rw [round_of_significand hpos hsignificand hexponent, ← hvalue, if_neg (not_le.mpr h.below), if_neg h.pos'.ne']

/-- Below a power of two the neighbours are half as far apart, and a number is rounded up to the power from a quarter
of its unit. -/
theorem Place.round_of_power (h : Place q (2 ^ 52) e) (hne : e ≠ -1074) (hpos : 0 < x) (hlow : q - 2 ^ e / 4 ≤ x)
    (hless : x < 2 ^ 52 * 2 ^ e) : round x = .finite q := by
  have hu := unit_pos e
  have hvalue := h.value
  have hleast := h.least
  push_cast at hvalue
  have hhalf : (2 : Rat) ^ (e - 1) = 2 ^ e / 2 := zpow_sub_one₀ two_ne_zero e
  have hexponent : exponent x = e - 1 := by
    refine Binary64.exponent_eq hpos (by omega) ?_ (.inr ?_)
    · rw [show e - 1 + 53 = e + (52 : Nat) by push_cast; ring, zpow_shift two_ne_zero]
      exact hless
    · rw [show e - 1 + 52 = e + (51 : Nat) by push_cast; ring, zpow_shift two_ne_zero]
      linarith
  have hsignificand : significand x = 2 ^ 53 := by
    rw [significand, hexponent, ratPow_eq_zpow, Nat.cast_ofNat, hhalf]
    refine nearestEven_eq (by positivity) ?_ ?_ (.inl (by norm_num))
    · rw [le_div_iff₀ (by positivity)]
      push_cast
      linarith
    · rw [div_le_iff₀ (by positivity)]
      push_cast
      linarith
  have hrounded : ((2 ^ 53 : Nat) : Rat) * 2 ^ (e - 1) = q := by
    rw [hhalf, hvalue]
    push_cast
    ring
  rw [round_of_significand hpos hsignificand hexponent, hrounded, if_neg (not_le.mpr h.below), if_neg h.pos'.ne']

/-- **What reads back as a double is rounded to it.** -/
theorem Place.round_of_readsBack (h : Place q m e) (hx : Decimal.readsBack q x = true) : round x = .finite q := by
  have hu := unit_pos e
  have hvalue := h.value
  have hleast := h.least
  have hm : (1 : Rat) ≤ m := by exact_mod_cast h.pos
  obtain ⟨hends, hodd⟩ := h.within hx
  have hpos : 0 < x := by nlinarith
  have hhigh : x < 2 ^ (e + 53) := by
    have hlt : (m : Rat) + 1 ≤ 2 ^ 53 := by exact_mod_cast h.lt
    rw [show e + 53 = e + (53 : Nat) from rfl, zpow_shift two_ne_zero]
    nlinarith
  by_cases hsame : e = -1074 ∨ (2 : Rat) ^ (e + 52) ≤ x
  · exact h.round_of_same hpos (Binary64.exponent_eq hpos hleast hhigh hsame) hends hodd
  · obtain ⟨hne, hless⟩ := not_or.mp hsame
    have hless : x < 2 ^ 52 * 2 ^ e := by
      rw [← zpow_shift two_ne_zero]
      exact not_le.mp hless
    -- the number has fallen below the power of two, so that the double is that power
    have hpower : m = 2 ^ 52 := by
      by_contra hmore
      have hnormal : 2 ^ 52 ≤ m := h.normal.resolve_left hne
      have hmore : ((2 : Rat) ^ 52) + 1 ≤ m := by
        have hnat : 2 ^ 52 + 1 ≤ m := by omega
        exact_mod_cast hnat
      nlinarith
    subst hpower
    have hinside := h.readsBack_iff.mp hx
    rw [if_pos (by norm_num), if_pos ⟨rfl, by omega⟩] at hinside
    exact h.round_of_power hne hpos hinside.1 hless

end Binary64

end JobWorker
