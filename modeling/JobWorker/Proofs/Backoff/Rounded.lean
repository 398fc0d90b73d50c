import JobWorker.Proofs.Backoff
import JobWorker.Proofs.Rounding

/-!
# `JobWorker.Proofs.Backoff.Rounded` — delays under a rounding

Without jitter a delay is never below the least delay, whatever was before it, as long as the factor is a number and the
rounding takes no more than half a millisecond away from the least delay. Four roundings stand between that and the
delay: a span is rounded three times as it becomes a number, and the sum with the move once.

After no delay, an infinite factor leads to no number, under every rounding: zero times an infinity is none. It passes
between the least and the greatest delay as it is and comes out as no milliseconds, so the next delay is none either.

## Contents
- **Numbers from spans.** `Backoff.millisOf_atLeast`, `Backoff.millisOf_zero`.
- **Spans from numbers.** `Backoff.roundedMillis_le_wholeMillis`, `Backoff.wholeMillis_nan`, `Backoff.secs_next_le`.
- **Delays.** `Backoff.le_next`; `Backoff.next_of_infinite`, `Backoff.delay_of_infinite`.
-/

namespace JobWorker

namespace Backoff

variable {round : Rounding} {ε F : Rat} {b : Backoff} {m : Nat}

/-! ## Numbers from spans -/

theorem millisOf_nonneg (hr : round.Loses ε) (d : Duration) : (millisOf round d).AtLeast 0 := by
  have hsecs := hr.nonneg d.secs (by positivity)
  have hfraction := hr.nonneg ((d.subsecNanos : Rat) / 1000000000) (by positivity)
  exact hr.mul_nonneg (hr.add_nonneg hsecs hfraction) (by norm_num)

/-- A span of a millisecond or more loses three shares on its way to a number: its seconds and their fraction are
rounded, then their sum, then its multiple. -/
theorem millisOf_atLeast (hr : round.Loses ε) (hε : ε ≤ 1 / 2) {d : Duration} (hd : 1 ≤ d.inMillis) :
    (millisOf round d).AtLeast (d.inMillis * (1 - ε) ^ 3) := by
  have hcount : ∀ k : Nat, (k : Rat) = 0 ∨ (1 : Rat) ≤ k := fun k => by
    exact_mod_cast Nat.eq_zero_or_pos k
  have hsecs := hr.of_eq_zero_or ((hcount d.secs).imp_right fun h => by linarith)
  have hfraction : (round ((d.subsecNanos : Rat) / 1000000000)).AtLeast
      ((d.subsecNanos : Rat) / 1000000000 * (1 - ε)) := by
    refine hr.of_eq_zero_or ((hcount d.subsecNanos).imp (fun h => ?_) fun h => ?_)
    · rw [h, zero_div]
    · exact div_le_div_of_nonneg_right h (by norm_num)
  -- From here on only the two parts matter, not the span they come from.
  rw [Duration.inMillis_eq] at hd ⊢
  rw [millisOf]
  generalize (d.secs : Rat) = s at hd hsecs ⊢
  generalize (d.subsecNanos : Rat) / 1000000000 = x at hd hfraction ⊢
  push_cast at hd
  have hparts : 1 / 2000 ≤ s * (1 - ε) + x * (1 - ε) := by nlinarith
  have hsum := hr.add (by linarith) hsecs hfraction (by linarith)
  have hwhole : 1 / 4000 ≤ (s * (1 - ε) + x * (1 - ε)) * (1 - ε) := by nlinarith
  have hproduct := hr.mul (k := (1000 : Nat)) (by linarith) hsum (by linarith) (by norm_num) (by push_cast; linarith)
  refine hproduct.mono (le_of_eq ?_)
  ring

theorem millisOf_zero (hround : round 0 = .finite 0) : millisOf round .zero = .finite 0 := by
  have hsecs : ((Duration.zero.secs : Nat) : Rat) = 0 := by
    norm_num [Duration.secs, Duration.zero]
  have hfraction : ((Duration.zero.subsecNanos : Nat) : Rat) / 1000000000 = 0 := by
    norm_num [Duration.subsecNanos, Duration.zero]
  have hsum : (Extended.finite 0).add round (.finite 0) = .finite 0 := if_pos (add_zero 0)
  rw [millisOf, hsecs, hfraction, hround, hsum]
  exact if_pos (zero_mul _)

/-! ## Spans from numbers -/

theorem wholeMillis_le (x : Extended) : wholeMillis x ≤ maxUnsigned64 := by
  rw [wholeMillis]
  cases (x.max .zero).roundHalfAway with
  | nan | negativeZero => exact Nat.zero_le _
  | infinity negative =>
      cases negative with
      | true => exact Nat.zero_le _
      | false => exact le_rfl
  | finite q => exact min_le_right _ _

theorem roundedMillis_le_wholeMillis {x : Extended} {c : Rat} (hx : x.AtLeast c) :
    roundedMillis c ≤ wholeMillis x := by
  cases x with
  | nan | negativeZero => exact hx.elim
  | infinity negative =>
      cases hx
      exact roundedMillis_le c
  | finite q =>
      rw [wholeMillis_finite]
      exact roundedMillis_mono hx

/-- No number is no milliseconds. -/
theorem wholeMillis_nan : wholeMillis .nan = 0 := by
  have hzero := wholeMillis_finite 0
  rw [← Nat.cast_zero, roundedMillis_natCast (Nat.zero_le _), Nat.cast_zero] at hzero
  exact hzero

/-- Every delay is within the range of timers. -/
theorem secs_next_le (round : Rounding) (b : Backoff) (draw : Rat) (previous : Duration) :
    (b.next round draw previous).secs ≤ maxSigned64 := by
  have hcap := wholeMillis_le ((b.raw round previous).add round (b.offset round draw previous))
  rw [next, Duration.secs, Duration.nanos_ofMillis hcap]
  unfold maxUnsigned64 at hcap
  unfold nanosPerMilli nanosPerSec maxSigned64
  omega

/-! ## Delays -/

/-- **No delay is below the least,** under a rounding that takes no more away than half a millisecond of that. -/
theorem le_next (hr : round.Loses ε) (hb : b.Plain F 0) (hm : 1 ≤ m) (hcap : m ≤ maxUnsigned64)
    (hloss : m * (4 * ε) ≤ 1 / 2) (hmin : m ≤ b.minDelay.inMillis) (draw : Rat) (previous : Duration) :
    m * nanosPerMilli ≤ (b.next round draw previous).nanos := by
  have hone : (1 : Rat) ≤ m := by exact_mod_cast hm
  have hhalf : ε ≤ 1 / 2 := by nlinarith
  have hkept : (1 / 2) ^ 3 ≤ (1 - ε) ^ 3 := pow_le_pow_left₀ (by norm_num) (by linarith) 3
  have hbound : ∀ {d : Duration}, m ≤ d.inMillis → (millisOf round d).AtLeast (m * (1 - ε) ^ 3) := fun hd =>
    (millisOf_atLeast hr hhalf (hone.trans hd)).mono (mul_le_mul_of_nonneg_right hd (by linarith))
  have hraw : (b.raw round previous).AtLeast (m * (1 - ε) ^ 3) := by
    rw [raw, hb.factor]
    exact Extended.clamp_atLeast (hr.mul_nonneg (millisOf_nonneg hr previous) (zero_lt_one.trans_le hb.one_le))
      (hbound hmin) (hbound (hmin.trans hb.ordered))
  -- Nothing is moved, but the sum is rounded all the same: the fourth share.
  have hnone : Extended.zero.AtLeast 0 := le_refl (0 : Rat)
  have hsum := hr.add (by linarith) hraw hnone (by nlinarith)
  have hleft : ((m - 1 : Nat) : Rat) + 1 / 2 ≤ (m * (1 - ε) ^ 3 + 0) * (1 - ε) := by
    have hbernoulli := one_add_mul_le_pow (a := -ε) (by linarith) 4
    push_cast [hm] at hbernoulli ⊢
    nlinarith
  have hwhole : m ≤ wholeMillis ((b.raw round previous).add round .zero) := by
    have hrounded := (le_roundedMillis_of_le hleft).trans (roundedMillis_le_wholeMillis hsum)
    omega
  rw [next, offset_of_noJitter round hb.jitter, Duration.nanos_ofMillis (wholeMillis_le _)]
  exact Nat.mul_le_mul_right _ hwhole

/-- After no delay an infinite factor leads to no delay again. -/
theorem next_of_infinite (hround : round 0 = .finite 0) (hfactor : b.factor = .infinity false) (draw : Rat) :
    b.next round draw .zero = .zero := by
  have hraw : b.raw round .zero = .nan := by
    rw [raw, millisOf_zero hround, hfactor]
    show Extended.nan.clamp _ _ = .nan
    cases millisOf round b.maxDelay <;> rfl
  have hsum : (b.raw round .zero).add round (b.offset round draw .zero) = .nan := by
    rw [hraw]
    rfl
  rw [next, hsum, wholeMillis_nan, Duration.ofMillis_zero]

/-- So the chain of delays stays there. -/
theorem delay_of_infinite (hround : round 0 = .finite 0) (hfactor : b.factor = .infinity false) (draws : Nat → Rat)
    (n : Nat) : b.delay round draws n = .zero := by
  induction n with
  | zero => rw [delay]
  | succ n ih => rw [delay, ih, next_of_infinite hround hfactor]

end Backoff

end JobWorker
