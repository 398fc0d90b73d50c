import JobWorker.Backoff
import JobWorker.Number.Width
import JobWorker.Proofs.Rounding
import Mathlib.Data.Rat.Floor
import Mathlib.Tactic.FieldSimp
import Mathlib.Tactic.Linarith
import Mathlib.Tactic.NormNum
import Mathlib.Tactic.Positivity
import Mathlib.Tactic.Ring

/-!
# `JobWorker.Proofs.Backoff.Exact` — delays in exact arithmetic

With every rational representable, the next delay is what its description says: the previous one in milliseconds times
the factor, kept between the least and the greatest delay, moved by a share of itself, and rounded.

## Contents
- **Numbers.** `Extended.add_exact`, `Extended.mul_exact_of_nonneg`, `Extended.clamp_finite`.
- **Milliseconds.** `Duration.inMillis`, `roundedMillis` (monotone, and exact on whole numbers up to 64 bits).
- **Settings.** `Backoff.exists_saneFactor`, `Backoff.Plain`, `Backoff.plain_make`.
- **Delays.** `Backoff.offset_of_noJitter`, `Backoff.next?_of_noJitter`; `Backoff.ideal`, `Backoff.Plain.next_eq`,
  `Backoff.Plain.next?_eq`.
-/

namespace JobWorker

/-! ## Numbers -/

namespace Extended

variable {a b lo hi : Rat}

theorem add_exact (a b : Rat) : (finite a).add .exact (finite b) = finite (a + b) := by
  show (if a + b = 0 then finite 0 else finite (a + b)) = finite (a + b)
  split
  · rename_i h
    rw [h]
  · rfl

theorem mul_exact_of_nonneg (ha : 0 ≤ a) (hb : 0 ≤ b) : (finite a).mul .exact (finite b) = finite (a * b) := by
  show (if a * b = 0 then signedZero (decide (a < 0) != decide (b < 0)) else finite (a * b)) = finite (a * b)
  split
  · rename_i h
    rw [h, decide_eq_false (not_lt.mpr ha), decide_eq_false (not_lt.mpr hb)]
    rfl
  · rfl

theorem mul_exact_of_pos (ha : 0 < a) (b : Rat) : (finite a).mul .exact (finite b) = finite (a * b) := by
  rcases eq_or_ne b 0 with rfl | hb
  · exact mul_exact_of_nonneg ha.le le_rfl
  · show (if a * b = 0 then signedZero (decide (a < 0) != decide (b < 0)) else finite (a * b)) = finite (a * b)
    exact if_neg (mul_ne_zero ha.ne' hb)

/-- A positive number is not written in another way. -/
theorem eq_finite_of_pos {x : Extended} (h : x.toRat? = some a) (ha : 0 < a) : x = finite a := by
  cases x with
  | nan | infinity _ => cases h
  | negativeZero =>
      cases h
      exact absurd ha (lt_irrefl 0)
  | finite q =>
      cases h
      rfl

theorem lt_finite (a b : Rat) : (finite a).lt (finite b) = decide (a < b) := rfl

theorem le_finite (a b : Rat) : (finite a).le (finite b) = decide (a ≤ b) := by
  show (!decide (b < a)) = decide (a ≤ b)
  rw [← decide_not, decide_eq_decide, not_lt]

/-- Between bounds that are in order, the number is the middle one of three. -/
theorem clamp_finite (h : lo ≤ hi) (a : Rat) :
    (finite a).clamp (finite lo) (finite hi) = finite (Max.max lo (min a hi)) := by
  by_cases hlow : a < lo
  · have hmin : min a hi = a := min_eq_left (hlow.le.trans h)
    simp [clamp, lt_finite, hlow, not_lt.mpr h, hmin, max_eq_left hlow.le]
  · by_cases hhigh : hi < a
    · simp [clamp, lt_finite, hlow, hhigh, min_eq_right hhigh.le, max_eq_right h]
    · simp [clamp, lt_finite, hlow, hhigh, min_eq_left (not_lt.mp hhigh), max_eq_right (not_lt.mp hlow)]

end Extended

/-! ## Milliseconds -/

namespace Duration

variable {d d' : Duration} {n : Nat}

/-- A span in milliseconds, with their fraction. -/
def inMillis (d : Duration) : Rat := d.nanos / nanosPerMilli

theorem inMillis_nonneg (d : Duration) : 0 ≤ d.inMillis := by
  unfold inMillis
  positivity

/-- A span is its whole seconds and their fraction. -/
theorem inMillis_eq (d : Duration) :
    d.inMillis = ((d.secs : Rat) + (d.subsecNanos : Rat) / 1000000000) * (1000 : Nat) := by
  have hsplit : (d.nanos : Rat) = 1000000000 * d.secs + d.subsecNanos := by
    exact_mod_cast (Nat.div_add_mod d.nanos nanosPerSec).symm
  rw [inMillis, hsplit, nanosPerMilli]
  push_cast
  ring

theorem inMillis_le_iff : d.inMillis ≤ d'.inMillis ↔ d.nanos ≤ d'.nanos := by
  unfold inMillis nanosPerMilli
  rw [div_le_div_iff_of_pos_right (by norm_num), Nat.cast_le]

theorem inMillis_max (d d' : Duration) : (d.max d').inMillis = Max.max d.inMillis d'.inMillis := by
  unfold max
  split
  · rename_i h
    rw [max_eq_right (inMillis_le_iff.mpr h)]
  · rename_i h
    rw [max_eq_left (inMillis_le_iff.mpr (Nat.le_of_lt (Nat.not_le.mp h)))]

theorem nanos_ofMillis (h : n ≤ maxUnsigned64) : (ofMillis n).nanos = n * nanosPerMilli := by
  unfold maxUnsigned64 at h
  apply nanos_ofNanos
  unfold nanosPerMilli
  omega

theorem nanos_ofMillis_mono {k : Nat} (h : k ≤ n) (hn : n ≤ maxUnsigned64) :
    (ofMillis k).nanos ≤ (ofMillis n).nanos := by
  rw [nanos_ofMillis (h.trans hn), nanos_ofMillis hn]
  exact Nat.mul_le_mul_right _ h

theorem ofMillis_zero : ofMillis 0 = zero := by
  rw [ofMillis, Nat.zero_mul, ofNanos, dif_pos (by decide)]
  rfl

@[simp] theorem inMillis_ofMillis (h : n ≤ maxUnsigned64) : (ofMillis n).inMillis = n := by
  rw [inMillis, nanos_ofMillis h, Nat.cast_mul]
  exact mul_div_cancel_right₀ _ (by norm_num [nanosPerMilli])

theorem ofMillis_inj {k : Nat} (hk : k ≤ maxUnsigned64) (hn : n ≤ maxUnsigned64) (h : ofMillis k = ofMillis n) :
    k = n := by
  have hmillis := congrArg inMillis h
  rw [inMillis_ofMillis hk, inMillis_ofMillis hn] at hmillis
  exact_mod_cast hmillis

end Duration

/-- Milliseconds rounded to a whole number, halves up, and cut to 64 bits. -/
def roundedMillis (q : Rat) : Nat := min ⌊q + 1 / 2⌋₊ maxUnsigned64

section Rounded

variable {q q' : Rat} {n : Nat}

theorem roundedMillis_le (q : Rat) : roundedMillis q ≤ maxUnsigned64 := min_le_right _ _

theorem roundedMillis_mono (h : q ≤ q') : roundedMillis q ≤ roundedMillis q' :=
  min_le_min_right _ (Nat.floor_mono (by linarith))

theorem roundedMillis_max (q q' : Rat) : roundedMillis (max q q') = max (roundedMillis q) (roundedMillis q') :=
  Monotone.map_max fun _ _ => roundedMillis_mono

theorem roundedMillis_min (q q' : Rat) : roundedMillis (min q q') = min (roundedMillis q) (roundedMillis q') :=
  Monotone.map_min fun _ _ => roundedMillis_mono

@[simp] theorem roundedMillis_natCast (h : n ≤ maxUnsigned64) : roundedMillis n = n := by
  have hfloor : ⌊(n : Rat) + 1 / 2⌋₊ = n := by
    rw [Nat.floor_eq_iff (by positivity)]
    constructor <;> linarith
  rw [roundedMillis, hfloor, min_eq_left h]

/-- What is less than a half above a whole number is rounded to no more than that. -/
theorem roundedMillis_le_of_lt (h : q < n + 1 / 2) : roundedMillis q ≤ n := by
  refine (min_le_left _ _).trans (Nat.lt_succ_iff.mp ?_)
  rw [Nat.floor_lt' (Nat.succ_ne_zero n), Nat.cast_succ]
  linarith

/-- What is at least a half above a whole number is rounded to the next, as far as 64 bits go. -/
theorem le_roundedMillis_of_le (h : n + 1 / 2 ≤ q) : min (n + 1) maxUnsigned64 ≤ roundedMillis q := by
  refine min_le_min_right _ (Nat.le_floor ?_)
  push_cast
  linarith

end Rounded

/-! ## Settings -/

namespace Backoff

variable {lo hi : Duration} {factor jitter : Extended} {f t F j draw : Rat} {b : Backoff} {previous : Duration}

/-- Settings with a factor of at least one and a jitter between zero and one, both numbers, and delays in order. -/
structure Plain (b : Backoff) (F j : Rat) : Prop where
  ordered : b.minDelay.inMillis ≤ b.maxDelay.inMillis
  factor : b.factor = .finite F
  one_le : 1 ≤ F
  jitter : b.jitter.toRat? = some j
  nonneg : 0 ≤ j
  le_one : j ≤ 1

theorem saneFactor_of_toRat? (h : factor.toRat? = some f) : saneFactor factor = .finite (max f 1) := by
  cases factor with
  | nan | infinity _ => cases h
  | negativeZero =>
      cases h
      rfl
  | finite q =>
      cases h
      by_cases hlt : f < 1
      · simp [saneFactor, Extended.max, Extended.one, Extended.lt_finite, hlt, hlt.le]
      · simp [saneFactor, Extended.max, Extended.one, Extended.lt_finite, hlt, not_lt.mp hlt]

theorem toRat?_saneJitter (h : jitter.toRat? = some t) : (saneJitter jitter).toRat? = some (max 0 (min t 1)) := by
  cases jitter with
  | nan | infinity _ => cases h
  | negativeZero =>
      cases h
      have hzero : min (0 : Rat) 1 = 0 := min_eq_left zero_le_one
      rw [hzero, max_self]
      rfl
  | finite q =>
      cases h
      rw [saneJitter, Extended.zero, Extended.one, Extended.clamp_finite zero_le_one]
      rfl

/-- Only an infinite factor stays infinite. -/
theorem exists_saneFactor (h : factor ≠ .infinity false) : ∃ F, 1 ≤ F ∧ saneFactor factor = .finite F := by
  cases factor with
  | nan => exact ⟨1, le_rfl, rfl⟩
  | infinity negative =>
      cases negative with
      | true => exact ⟨1, le_rfl, rfl⟩
      | false => exact absurd rfl h
  | negativeZero => exact ⟨1, le_rfl, rfl⟩
  | finite q => exact ⟨max q 1, le_max_right _ _, saneFactor_of_toRat? rfl⟩

/-- Settings made from a factor that is a number in the end and a jitter that is one are plain. -/
theorem plain_make (lo hi : Duration) (hF : saneFactor factor = .finite F) (hone : 1 ≤ F)
    (ht : jitter.toRat? = some t) : (make lo hi factor jitter).Plain F (max 0 (min t 1)) where
  ordered := by
    show lo.inMillis ≤ (hi.max lo).inMillis
    rw [Duration.inMillis_max]
    exact le_max_right _ _
  factor := hF
  one_le := hone
  jitter := toRat?_saneJitter ht
  nonneg := le_max_left _ _
  le_one := max_le zero_le_one (min_le_right _ _)

theorem plain_make_of_noJitter (lo hi : Duration) (hF : saneFactor factor = .finite F) (hone : 1 ≤ F)
    (ht : jitter.toRat? = some 0) : (make lo hi factor jitter).Plain F 0 := by
  have hplain := plain_make lo hi hF hone ht
  rw [min_eq_left zero_le_one, max_self] at hplain
  exact hplain

/-- So are those made from a factor above one and no jitter. -/
theorem plain_make_of_lt (hf : 1 < f) (ht : jitter.toRat? = some 0) : (make lo hi (.finite f) jitter).Plain f 0 := by
  refine plain_make_of_noJitter lo hi ?_ hf.le ht
  rw [saneFactor_of_toRat? rfl, max_eq_left hf.le]

/-! ## Delays -/

/-- The delay after `previous` before it is moved and rounded, in milliseconds: the previous one times the factor, kept
between the least and the greatest. -/
def ideal (b : Backoff) (F : Rat) (previous : Duration) : Rat :=
  max b.minDelay.inMillis (min (previous.inMillis * F) b.maxDelay.inMillis)

theorem ideal_nonneg (b : Backoff) (F : Rat) (previous : Duration) : 0 ≤ b.ideal F previous :=
  le_max_of_le_left (Duration.inMillis_nonneg _)

theorem millisOf_exact (d : Duration) : millisOf .exact d = .finite d.inMillis := by
  rw [Duration.inMillis_eq, millisOf]
  simp only [Rounding.exact, Extended.ofNat]
  rw [show (Extended.finite (d.secs : Rat)).add Extended.finite (.finite ((d.subsecNanos : Rat) / 1000000000)) = _ from
    Extended.add_exact _ _]
  exact Extended.mul_exact_of_nonneg (by positivity) (by positivity)

theorem wholeMillis_of_nonneg {q : Rat} (hq : 0 ≤ q) : wholeMillis (.finite q) = roundedMillis q := by
  have hsame : (Extended.finite q).max .zero = .finite q := by
    simp [Extended.max, Extended.zero, Extended.lt_finite, not_lt.mpr hq]
  have hround : (Extended.finite q).roundHalfAway = .finite ⌊q + 1 / 2⌋ := by
    rw [Extended.roundHalfAway, Extended.roundRat, if_pos hq, decide_eq_false (not_lt.mpr hq)]
    rfl
  rw [wholeMillis, hsame, hround, roundedMillis]
  show min (⌊((⌊q + 1 / 2⌋ : Int) : Rat)⌋).toNat maxUnsigned64 = _
  rw [Int.floor_intCast, Int.floor_toNat]

/-- A negative number is no milliseconds at all. -/
theorem wholeMillis_finite (q : Rat) : wholeMillis (.finite q) = roundedMillis q := by
  rcases lt_or_ge q 0 with hq | hq
  · have hsame : (Extended.finite q).max .zero = (Extended.finite 0).max .zero := by
      simp [Extended.max, Extended.zero, Extended.lt_finite, hq]
    have hnone : ⌊q + 1 / 2⌋₊ = ⌊(0 : Rat) + 1 / 2⌋₊ := by
      rw [Nat.floor_eq_zero.mpr (by linarith), Nat.floor_eq_zero.mpr (by norm_num)]
    rw [roundedMillis, hnone]
    refine (congrArg (fun x => (x.roundHalfAway).toNatUpTo maxUnsigned64) hsame).trans ?_
    exact wholeMillis_of_nonneg le_rfl
  · exact wholeMillis_of_nonneg hq

/-! Without jitter nothing is moved, whatever the factor and the rounding. -/

theorem lt_window_of_noJitter (round : Rounding) (hjitter : b.jitter.toRat? = some 0) (previous : Duration) :
    Extended.zero.lt (b.window round previous) = false :=
  Extended.lt_mul_of_zero round _ hjitter

theorem offset_of_noJitter (round : Rounding) (hjitter : b.jitter.toRat? = some 0) (draw : Rat) (previous : Duration) :
    b.offset round draw previous = .zero := by
  show (if Extended.zero.lt (b.window round previous) then _ else Extended.zero) = .zero
  rw [lt_window_of_noJitter round hjitter]
  rfl

/-- Computing a delay breaks down at most where a move has to be drawn. -/
theorem next?_of_canDraw (hordered : b.minDelay.inMillis ≤ b.maxDelay.inMillis)
    (hdraw : b.canDraw .exact previous = true) (draw : Rat) :
    b.next? .exact draw previous = some (b.next .exact draw previous) := by
  have hsame : b.isOrdered .exact = true := by
    rw [isOrdered, millisOf_exact, millisOf_exact, Extended.le_finite]
    exact decide_eq_true hordered
  rw [next?, hsame, hdraw]
  rfl

theorem next?_of_noJitter (hordered : b.minDelay.inMillis ≤ b.maxDelay.inMillis) (hjitter : b.jitter.toRat? = some 0)
    (draw : Rat) (previous : Duration) :
    b.next? .exact draw previous = some (b.next .exact draw previous) := by
  refine next?_of_canDraw hordered ?_ draw
  rw [canDraw, lt_window_of_noJitter _ hjitter]
  rfl

namespace Plain

theorem raw_eq (hb : b.Plain F j) (previous : Duration) : b.raw .exact previous = .finite (b.ideal F previous) := by
  have hF : 0 ≤ F := zero_le_one.trans hb.one_le
  rw [raw, hb.factor, millisOf_exact, millisOf_exact, millisOf_exact,
    Extended.mul_exact_of_nonneg (Duration.inMillis_nonneg _) hF, Extended.clamp_finite hb.ordered]
  rfl

/-- Where there is jitter, the window is its share of the delay. -/
theorem window_eq (hb : b.Plain F j) (hj : 0 < j) (previous : Duration) :
    b.window .exact previous = .finite (b.ideal F previous * j) := by
  rw [window, hb.raw_eq, Extended.eq_finite_of_pos hb.jitter hj]
  exact Extended.mul_exact_of_nonneg (b.ideal_nonneg F previous) hb.nonneg

theorem offset_eq (hb : b.Plain F j) (draw : Rat) (previous : Duration) :
    b.offset .exact draw previous = .finite (b.ideal F previous * j * draw) := by
  rcases hb.nonneg.eq_or_lt with rfl | hj
  · rw [offset_of_noJitter _ hb.jitter, mul_zero, zero_mul]
    rfl
  · rw [offset, hb.window_eq hj]
    rcases (mul_nonneg (b.ideal_nonneg F previous) hj.le).eq_or_lt with hnone | hw
    · rw [← hnone, zero_mul]
      rfl
    · exact (if_pos (decide_eq_true hw)).trans (Extended.mul_exact_of_pos hw draw)

/-- **The next delay in exact arithmetic.** -/
theorem next_eq (hb : b.Plain F j) (draw : Rat) (previous : Duration) :
    b.next .exact draw previous = .ofMillis (roundedMillis (b.ideal F previous * (1 + j * draw))) := by
  rw [next, hb.raw_eq, hb.offset_eq, Extended.add_exact, wholeMillis_finite]
  congr 2
  ring

/-- Computing it never breaks down. -/
theorem next?_eq (hb : b.Plain F j) (draw : Rat) (previous : Duration) :
    b.next? .exact draw previous = some (b.next .exact draw previous) := by
  rcases hb.nonneg.eq_or_lt with rfl | hj
  · exact next?_of_noJitter hb.ordered hb.jitter draw previous
  · refine next?_of_canDraw hb.ordered ?_ draw
    rw [canDraw, hb.window_eq hj]
    exact Bool.or_true _

end Plain

end Backoff

end JobWorker
