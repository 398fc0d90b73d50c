import JobWorker.Number.Binary64
import Mathlib.Algebra.Order.Field.Power
import Mathlib.Data.Int.Log
import Mathlib.Data.Rat.Floor
import Mathlib.Tactic.FieldSimp
import Mathlib.Tactic.Linarith
import Mathlib.Tactic.NormNum
import Mathlib.Tactic.Positivity
import Mathlib.Tactic.Ring

/-!
# `JobWorker.Proofs.Rounding` — how much rounding takes away

A lower bound of a number survives every operation up to the share that its rounding takes away. In exact arithmetic
that share is none. For binary64 it is `2^-53`: half the distance of two neighbours, which is a share `2^-52` of every
number that is not below `2^-1022`. A positive infinity is no exception: it is above every bound.

## Contents
- **Bounds.** `Extended.AtLeast`; `Extended.add_atLeast`, `Extended.mul_atLeast`, `Extended.clamp_atLeast`.
- **Roundings.** `Rounding.Loses`, with what it leaves of sums and multiples; `Rounding.exact_loses`.
- **Double precision.** `log2Floor_eq`, `le_nearestEven`, `Binary64.round_atLeast`, `Binary64.round_loses`.
-/

namespace JobWorker

/-! ## Bounds -/

namespace Extended

variable {round : Rounding} {x y lo hi : Extended} {a b c k : Rat}

/-- The number is at least `c`: not a negative zero, but possibly the positive infinity. -/
def AtLeast (c : Rat) : Extended → Prop
  | .nan               => False
  | .infinity negative => negative = false
  | .negativeZero      => False
  | .finite q          => c ≤ q

theorem AtLeast.mono (hx : x.AtLeast a) (h : c ≤ a) : x.AtLeast c := by
  cases x with
  | nan | negativeZero | infinity _ => exact hx
  | finite q => exact h.trans hx

/-- A sum is at least what the sum of two bounds is rounded to. -/
theorem add_atLeast (hx : x.AtLeast a) (hy : y.AtLeast b) (hround : ∀ q, a + b ≤ q → (round q).AtLeast c)
    (hzero : a + b ≤ 0 → c ≤ 0) : (x.add round y).AtLeast c := by
  cases x with
  | nan | negativeZero => exact hx.elim
  | infinity s =>
      cases y with
      | nan | negativeZero => exact hy.elim
      | infinity t =>
          cases hx
          cases hy
          rfl
      | finite r => exact hx
  | finite q =>
      cases y with
      | nan | negativeZero => exact hy.elim
      | infinity t => exact hy
      | finite r =>
          have hsum : a + b ≤ q + r := add_le_add hx hy
          show (if q + r = 0 then finite 0 else round (q + r)).AtLeast c
          split
          · rename_i hnone
            exact hzero (hnone ▸ hsum)
          · exact hround _ hsum

/-- A positive multiple is at least what the multiple of a bound is rounded to. -/
theorem mul_atLeast (hx : x.AtLeast a) (ha : 0 ≤ a) (hk : 0 < k) (hround : ∀ q, a * k ≤ q → (round q).AtLeast c)
    (hzero : a * k ≤ 0 → c ≤ 0) : (x.mul round (finite k)).AtLeast c := by
  have hsign : decide (k < 0) = false := decide_eq_false (not_lt.mpr hk.le)
  cases x with
  | nan | negativeZero => exact hx.elim
  | infinity s =>
      cases hx
      have hnonzero : (finite k).toRat? ≠ some 0 := fun h => hk.ne' (Option.some.inj h)
      show (if (finite k).toRat? = some 0 then nan else infinity (false != decide (k < 0))).AtLeast c
      rw [if_neg hnonzero, hsign]
      rfl
  | finite q =>
      have hproduct : a * k ≤ q * k := mul_le_mul_of_nonneg_right hx hk.le
      have hpositive : decide (q < 0) = false := decide_eq_false (not_lt.mpr (ha.trans hx))
      show (if q * k = 0 then signedZero (decide (q < 0) != decide (k < 0)) else round (q * k)).AtLeast c
      split
      · rename_i hnone
        rw [hpositive, hsign]
        exact hzero (hnone ▸ hproduct)
      · exact hround _ hproduct

/-- What is kept between two numbers is at least what both of them are. -/
theorem clamp_atLeast (hx : x.AtLeast a) (hlo : lo.AtLeast c) (hhi : hi.AtLeast c) : (x.clamp lo hi).AtLeast c := by
  have hraised : (if x.lt lo then lo else x).AtLeast c := by
    split
    · exact hlo
    · rename_i hlt
      cases x with
      | nan | negativeZero => exact hx.elim
      | infinity s => exact hx
      | finite q =>
          cases lo with
          | nan | negativeZero => exact hlo.elim
          | infinity t =>
              -- A finite number is below a positive infinity.
              cases hlo
              exact absurd rfl hlt
          | finite r => exact le_trans hlo (not_lt.mp (of_decide_eq_false (eq_false_of_ne_true hlt)))
  unfold clamp
  generalize (if x.lt lo then lo else x) = raised at hraised
  show (if hi.lt raised then hi else raised).AtLeast c
  split
  · exact hhi
  · exact hraised

/-- Nothing times a zero of either sign is positive, not even an infinity. -/
theorem lt_mul_of_zero (round : Rounding) (x : Extended) (hy : y.toRat? = some 0) :
    zero.lt (x.mul round y) = false := by
  have hsigned : ∀ negative, zero.lt (signedZero negative) = false := by decide
  have hproduct : ∀ negative (q : Rat),
      zero.lt (if q * 0 = 0 then signedZero negative else round (q * 0)) = false := by
    intro negative q
    rw [if_pos (mul_zero q), hsigned]
  cases y with
  | nan | infinity _ => cases hy
  | negativeZero =>
      cases x with
      | nan | infinity _ => rfl
      | negativeZero => exact hproduct _ 0
      | finite q => exact hproduct _ q
  | finite r =>
      cases hy
      cases x with
      | nan | infinity _ => rfl
      | negativeZero => exact hproduct _ 0
      | finite q => exact hproduct _ q

end Extended

/-! ## Roundings -/

/-- A rounding that takes at most a share `ε` away from a number, down to the billionth, and nothing else below zero. A
billionth of a second is the least fraction that a span has. -/
structure Rounding.Loses (round : Rounding) (ε : Rat) : Prop where
  zero : round 0 = .finite 0
  nonneg : ∀ q, 0 ≤ q → (round q).AtLeast 0
  share : ∀ q, 1 / 1000000000 ≤ q → (round q).AtLeast (q * (1 - ε))

namespace Rounding.Loses

variable {round : Rounding} {ε a b k q : Rat} {x y : Extended}

theorem of_eq_zero_or (hr : round.Loses ε) (h : q = 0 ∨ 1 / 1000000000 ≤ q) : (round q).AtLeast (q * (1 - ε)) := by
  rcases h with rfl | hq
  · rw [hr.zero, zero_mul]
    exact le_refl (0 : Rat)
  · exact hr.share q hq

/-- What is at least a bound is rounded to at least what the rounding leaves of the bound. -/
theorem of_le (hr : round.Loses ε) (hε : ε ≤ 1) (ha : 1 / 1000000000 ≤ a) (h : a ≤ q) :
    (round q).AtLeast (a * (1 - ε)) :=
  (hr.share q (ha.trans h)).mono (mul_le_mul_of_nonneg_right h (sub_nonneg.mpr hε))

theorem add (hr : round.Loses ε) (hε : ε ≤ 1) (hx : x.AtLeast a) (hy : y.AtLeast b) (h : 1 / 1000000000 ≤ a + b) :
    (x.add round y).AtLeast ((a + b) * (1 - ε)) :=
  Extended.add_atLeast hx hy (fun _ hq => hr.of_le hε h hq) fun hnone => absurd (h.trans hnone) (by norm_num)

theorem mul (hr : round.Loses ε) (hε : ε ≤ 1) (hx : x.AtLeast a) (ha : 0 ≤ a) (hk : 0 < k)
    (h : 1 / 1000000000 ≤ a * k) : (x.mul round (.finite k)).AtLeast (a * k * (1 - ε)) :=
  Extended.mul_atLeast hx ha hk (fun _ hq => hr.of_le hε h hq) fun hnone => absurd (h.trans hnone) (by norm_num)

theorem add_nonneg (hr : round.Loses ε) (hx : x.AtLeast 0) (hy : y.AtLeast 0) : (x.add round y).AtLeast 0 :=
  Extended.add_atLeast hx hy (fun q hq => hr.nonneg q (by linarith)) fun _ => le_rfl

theorem mul_nonneg (hr : round.Loses ε) (hx : x.AtLeast 0) (hk : 0 < k) : (x.mul round (.finite k)).AtLeast 0 :=
  Extended.mul_atLeast hx le_rfl hk (fun q hq => hr.nonneg q (by linarith)) fun _ => le_rfl

end Rounding.Loses

/-- Exact arithmetic takes nothing away. -/
theorem Rounding.exact_loses : Rounding.exact.Loses 0 where
  zero := rfl
  nonneg _ h := h
  share q _ := by
    rw [sub_zero, mul_one]
    exact le_refl q

/-! ## Double precision -/

variable {q : Rat}

theorem ratPow_eq_zpow (base : Nat) (e : Int) : ratPow base e = (base : Rat) ^ e := by
  unfold ratPow
  split
  · rename_i h
    obtain ⟨n, rfl⟩ := Int.eq_ofNat_of_zero_le h
    simp
  · rename_i h
    obtain ⟨n, hn⟩ := Int.eq_ofNat_of_zero_le (Int.neg_nonneg_of_nonpos (Int.le_of_lt (Int.not_le.mp h)))
    have he : e = -(n : Int) := by omega
    subst he
    simp

/-- The estimate of a leading digit, corrected by one where it is too great. -/
theorem leading_eq {base : Nat} {e : Int} (hbase : 1 < base) (hq : 0 < q) (hlow : (base : Rat) ^ (e - 1) ≤ q)
    (hhigh : q < (base : Rat) ^ (e + 1)) : (if ratPow base e ≤ q then e else e - 1) = Int.log base q := by
  have hbelow : Int.log base q < e + 1 := (Int.lt_zpow_iff_log_lt hbase hq).mp hhigh
  have habove : e - 1 ≤ Int.log base q := (Int.zpow_le_iff_le_log hbase hq).mp hlow
  rw [ratPow_eq_zpow]
  split
  · rename_i h
    have hleast : e ≤ Int.log base q := (Int.zpow_le_iff_le_log hbase hq).mp h
    omega
  · rename_i h
    have hless : Int.log base q < e := (Int.lt_zpow_iff_log_lt hbase hq).mp (not_le.mp h)
    omega

/-- A positive rational as its numerator over its denominator, both natural. -/
theorem eq_num_div_den (hq : 0 < q) : q = (q.num.toNat : Rat) / (q.den : Rat) ∧ 0 < q.num.toNat := by
  have hnum : 0 < q.num := Rat.num_pos.mpr hq
  have hwhole : ((q.num.toNat : Nat) : Rat) = (q.num : Rat) := by exact_mod_cast Int.toNat_of_nonneg hnum.le
  exact ⟨by rw [hwhole, Rat.num_div_den], by omega⟩

/-- The quotient of two numbers with known numbers of digits. -/
theorem leading_of_quotient (base : Nat) {k l a b : Nat} (hbase : 1 < base) (ha : base ^ k ≤ a) (ha' : a < base ^ (k + 1))
    (hb : base ^ l ≤ b) (hb' : b < base ^ (l + 1)) :
    (base : Rat) ^ ((k : Int) - l - 1) ≤ (a : Rat) / b ∧ (a : Rat) / b < (base : Rat) ^ ((k : Int) - l + 1) := by
  have hpos : (0 : Rat) < base := by exact_mod_cast (Nat.zero_lt_one.trans hbase)
  have hbpos : (0 : Rat) < b := by exact_mod_cast (Nat.pow_pos (Nat.zero_lt_one.trans hbase)).trans_le hb
  constructor
  · calc (base : Rat) ^ ((k : Int) - l - 1) = base ^ k / base ^ (l + 1) := by
          rw [sub_sub, zpow_sub₀ hpos.ne', zpow_natCast, ← Nat.cast_succ, zpow_natCast]
      _ ≤ a / b := div_le_div₀ (by positivity) (by exact_mod_cast ha) hbpos (by exact_mod_cast hb'.le)
  · calc (a : Rat) / b < base ^ (k + 1) / base ^ l :=
          div_lt_div₀ (by exact_mod_cast ha') (by exact_mod_cast hb) (by positivity) (by positivity)
      _ = (base : Rat) ^ ((k : Int) - l + 1) := by
          rw [sub_add_eq_add_sub, zpow_sub₀ hpos.ne', zpow_natCast, ← Nat.cast_succ, zpow_natCast]

/-- The place of the leading binary digit. -/
theorem log2Floor_eq (hq : 0 < q) : log2Floor q = Int.log 2 q := by
  obtain ⟨heq, hnum⟩ := eq_num_div_den hq
  obtain ⟨hlow, hhigh⟩ := leading_of_quotient 2 one_lt_two (Nat.log2_self_le hnum.ne') Nat.lt_log2_self
    (Nat.log2_self_le q.den_ne_zero) Nat.lt_log2_self
  rw [← heq] at hlow hhigh
  exact leading_eq one_lt_two hq hlow hhigh

/-- The leading digit of a number is no more than the number. -/
theorem log2Floor_le (hq : 0 < q) : (2 : Rat) ^ log2Floor q ≤ q := by
  rw [log2Floor_eq hq]
  exact Int.zpow_log_le_self one_lt_two hq

/-- The whole part of a number that is not negative. -/
theorem floor_spec (hq : 0 ≤ q) : ((q.floor.toNat : Nat) : Rat) ≤ q ∧ q < (q.floor.toNat : Nat) + 1 := by
  have hfloor : ((q.floor.toNat : Nat) : Rat) = (⌊q⌋ : Int) := by
    exact_mod_cast Int.toNat_of_nonneg (Int.floor_nonneg.mpr hq)
  rw [hfloor]
  exact ⟨Int.floor_le q, Int.lt_floor_add_one q⟩

/-- The nearest whole number is at most a half below. -/
theorem le_nearestEven (hq : 0 ≤ q) : q - 1 / 2 ≤ nearestEven q := by
  have habove := (floor_spec hq).2
  unfold nearestEven
  dsimp only
  split
  · linarith
  split
  · push_cast
    linarith
  split
  · linarith
  · push_cast
    linarith

namespace Binary64

/-- The neighbours of a number are no further apart than a share `2^-52` of it. -/
theorem spacing_le (hq : (2 : Rat) ^ (-1022 : Int) ≤ q) : (2 : Rat) ^ exponent q ≤ q / 2 ^ 52 := by
  have hpos : 0 < q := lt_of_lt_of_le (by positivity) hq
  unfold exponent
  -- The neighbours of a normal number follow its leading digit; below, their distance no longer shrinks.
  rcases max_cases (log2Floor q - 52) (-1074) with ⟨hmax, -⟩ | ⟨hmax, -⟩
  · rw [hmax, zpow_sub₀ two_ne_zero]
    exact div_le_div_of_nonneg_right (log2Floor_le hpos) (by positivity)
  · have hleast : (2 : Rat) ^ (-1074 : Int) = 2 ^ (-1022 : Int) / 2 ^ 52 := by
      rw [show (-1074 : Int) = -1022 - 52 from rfl, zpow_sub₀ two_ne_zero]
      rfl
    rw [hmax, hleast]
    exact div_le_div_of_nonneg_right hq (by positivity)

/-- What is rounded is at least what its place on the grid is. -/
theorem round_of_pos {c : Rat} (hq : 0 < q) (hc : c ≤ significand q * ratPow 2 (exponent q)) :
    (round q).AtLeast c := by
  have hsign : ¬q < 0 := not_lt.mpr hq.le
  unfold round
  simp only [if_neg hq.ne', if_neg hsign, decide_eq_false hsign]
  generalize (significand q : Rat) * ratPow 2 (exponent q) = rounded at hc ⊢
  split
  · rfl
  split
  · rename_i hvanished
    show c ≤ 0
    rw [← hvanished]
    exact hc
  · exact hc

/-- **Rounding takes at most a share `2^-53` of a number away.** -/
theorem round_atLeast (hq : (2 : Rat) ^ (-1022 : Int) ≤ q) : (round q).AtLeast (q * (1 - 1 / 2 ^ 53)) := by
  have hpos : 0 < q := lt_of_lt_of_le (by positivity) hq
  have hunit : (0 : Rat) < 2 ^ exponent q := by positivity
  have hspacing := spacing_le hq
  apply round_of_pos hpos
  rw [ratPow_eq_zpow, significand, ratPow_eq_zpow, Nat.cast_ofNat]
  have hnearest := le_nearestEven (div_nonneg hpos.le hunit.le)
  calc q * (1 - 1 / 2 ^ 53) ≤ q - 2 ^ exponent q / 2 := by linarith
    _ = (q / 2 ^ exponent q - 1 / 2) * 2 ^ exponent q := by field_simp
    _ ≤ nearestEven (q / 2 ^ exponent q) * 2 ^ exponent q := mul_le_mul_of_nonneg_right hnearest hunit.le

/-- Rounding to double precision, as a rounding that takes little away. -/
theorem round_loses : Rounding.Loses round (1 / 2 ^ 53) where
  zero := rfl
  nonneg q hq := by
    rcases hq.lt_or_eq with hpos | rfl
    · refine round_of_pos hpos ?_
      rw [ratPow_eq_zpow]
      positivity
    · exact le_refl (0 : Rat)
  share q hq := by
    have hnormal : (2 : Rat) ^ (-1022 : Int) ≤ 2 ^ (-30 : Int) := zpow_le_zpow_right₀ one_le_two (by norm_num)
    have hbillionth : (2 : Rat) ^ (-30 : Int) ≤ 1 / 1000000000 := by norm_num
    exact round_atLeast (hnormal.trans (hbillionth.trans hq))

end Binary64

end JobWorker
