import JobWorker.Proofs.Backoff.Exact

/-!
# `JobWorker.Proofs.Backoff` — bounds of growing delays, and where they get to

In exact arithmetic a delay stays within its jitter of what its description says, and so within the jitter of the least
and the greatest delay. Without jitter it grows with the previous one, and the chain of delays that are fed back in is
a climb over whole milliseconds: it begins at the least delay and never falls. Whether it gets to the greatest depends
on its first step, since the delay is rounded before it is fed back in: where the factor adds less than half a
millisecond to the first delay, the chain stays there for ever.

## Contents
- **Chains.** `Backoff.delay`, `Backoff.chain_eq_map_delay`.
- **Steps.** `Backoff.climb`, `Backoff.Plain.delay_eq`; what one step adds: `Backoff.Plain.climb_rises`,
  `Backoff.Plain.climb_stays`.
- **Bounds.** `Backoff.next_bounds`.
- **The ceiling.** `Backoff.delay_reaches_iff`.
-/

namespace JobWorker

namespace Backoff

/-! ## Chains -/

/-- The delays of the chain that starts from no delay, each fed back in under a draw of its own. -/
def delay (round : Rounding) (b : Backoff) (draws : Nat → Rat) : Nat → Duration
  | 0     => .zero
  | n + 1 => b.next round (draws n) (delay round b draws n)

variable {b : Backoff} {F j : Rat} {draws : Nat → Rat} {k n : Nat} {p q : Duration}

/-- A chain from any delay on is the delays after it, all drawn at zero. -/
theorem chain_delay (round : Rounding) (b : Backoff) (n k : Nat) :
    b.chain round n (b.delay round (fun _ => 0) k) =
      (List.range n).map fun i => b.delay round (fun _ => 0) (k + 1 + i) := by
  induction n generalizing k with
  | zero => rfl
  | succ n ih =>
      have hnext : b.next round 0 (b.delay round (fun _ => 0) k) = b.delay round (fun _ => 0) (k + 1) := by
        rw [delay]
      rw [chain, List.range_succ_eq_map, List.map_cons, List.map_map]
      rw [hnext, ih (k + 1), Nat.add_zero]
      refine congrArg _ (List.map_congr_left fun i _ => ?_)
      rw [Function.comp_apply, Nat.succ_eq_add_one, Nat.add_right_comm (k + 1) 1 i, Nat.add_assoc]

/-- A chain that starts from no delay is all of them in order. -/
theorem chain_eq_map_delay (round : Rounding) (b : Backoff) (n : Nat) :
    b.chain round n .zero = (List.range n).map fun k => b.delay round (fun _ => 0) (k + 1) := by
  have hchain := chain_delay round b n 0
  rw [delay] at hchain
  rw [hchain]
  refine List.map_congr_left fun k _ => ?_
  rw [Nat.zero_add, Nat.add_comm]

/-! ## Steps -/

/-- The whole milliseconds that follow `k` of them, without jitter. -/
def climb (b : Backoff) (F : Rat) (k : Nat) : Nat :=
  roundedMillis (max b.minDelay.inMillis (min (k * F) b.maxDelay.inMillis))

theorem climb_mono (hF : 0 ≤ F) (h : k ≤ n) : b.climb F k ≤ b.climb F n := by
  have hcast : (k : Rat) ≤ n := by exact_mod_cast h
  exact roundedMillis_mono (max_le_max_left _ (min_le_min_right _ (mul_le_mul_of_nonneg_right hcast hF)))

/-- The first step leads to the least delay. -/
theorem climb_zero (b : Backoff) (F : Rat) : b.climb F 0 = roundedMillis b.minDelay.inMillis := by
  have hnone : min ((0 : Nat) * F) b.maxDelay.inMillis = 0 := by
    rw [Nat.cast_zero, zero_mul]
    exact min_eq_left (Duration.inMillis_nonneg _)
  rw [climb, hnone, max_eq_left (Duration.inMillis_nonneg _)]

/-- No step leads below the least delay. -/
theorem le_climb (b : Backoff) (F : Rat) (k : Nat) : roundedMillis b.minDelay.inMillis ≤ b.climb F k :=
  roundedMillis_mono (le_max_left _ _)

theorem iterate_climb_le (b : Backoff) (F : Rat) (n : Nat) : (b.climb F)^[n] 0 ≤ maxUnsigned64 := by
  cases n with
  | zero =>
      rw [Function.iterate_zero_apply]
      exact Nat.zero_le _
  | succ n =>
      rw [Function.iterate_succ_apply']
      exact roundedMillis_le _

namespace Plain

/-- Without jitter the draw makes no difference. -/
theorem next_of_noJitter (hb : b.Plain F 0) (draw : Rat) (p : Duration) :
    b.next .exact draw p = .ofMillis (roundedMillis (b.ideal F p)) := by
  rw [hb.next_eq, zero_mul, add_zero, mul_one]

/-- **Without jitter the chain of delays is a climb over whole milliseconds.** -/
theorem delay_eq (hb : b.Plain F 0) (draws : Nat → Rat) (n : Nat) :
    b.delay .exact draws n = .ofMillis ((b.climb F)^[n] 0) := by
  induction n with
  | zero => rw [delay, Function.iterate_zero_apply, Duration.ofMillis_zero]
  | succ n ih =>
      rw [delay, ih, hb.next_of_noJitter, ideal, Duration.inMillis_ofMillis (iterate_climb_le b F n),
        Function.iterate_succ_apply', climb]

/-- No step leads above the greatest delay. -/
theorem climb_le (hb : b.Plain F j) (k : Nat) : b.climb F k ≤ roundedMillis b.maxDelay.inMillis :=
  roundedMillis_mono (max_le hb.ordered (min_le_right _ _))

/-- So a climb stays below the greatest delay. -/
theorem iterate_climb_le_greatest (hb : b.Plain F j) (n : Nat) :
    (b.climb F)^[n] 0 ≤ roundedMillis b.maxDelay.inMillis := by
  cases n with
  | zero =>
      rw [Function.iterate_zero_apply]
      exact Nat.zero_le _
  | succ n =>
      rw [Function.iterate_succ_apply']
      exact hb.climb_le _

/-- A climb never falls. -/
theorem iterate_climb_mono (hb : b.Plain F j) (n : Nat) : (b.climb F)^[n] 0 ≤ (b.climb F)^[n + 1] 0 := by
  induction n with
  | zero =>
      rw [Function.iterate_zero_apply]
      exact Nat.zero_le _
  | succ n ih =>
      rw [Function.iterate_succ_apply', Function.iterate_succ_apply' _ (n + 1)]
      exact climb_mono (zero_le_one.trans hb.one_le) ih

/-- A step to which the factor adds at least half a millisecond leads up, as far as the greatest delay. -/
theorem climb_rises (h : 1 / 2 ≤ (F - 1) * k) :
    min (k + 1) (roundedMillis b.maxDelay.inMillis) ≤ b.climb F k := by
  -- Half a millisecond more is enough, because halves are rounded up.
  have hraw : min ((k : Rat) + 1 / 2) b.maxDelay.inMillis ≤
      max b.minDelay.inMillis (min (k * F) b.maxDelay.inMillis) :=
    le_max_of_le_right (min_le_min_right _ (by linarith))
  calc min (k + 1) (roundedMillis b.maxDelay.inMillis)
      ≤ min (roundedMillis ((k : Rat) + 1 / 2)) (roundedMillis b.maxDelay.inMillis) := by
        have hhalf := le_roundedMillis_of_le (le_refl ((k : Rat) + 1 / 2))
        have hcap := roundedMillis_le b.maxDelay.inMillis
        omega
    _ = roundedMillis (min ((k : Rat) + 1 / 2) b.maxDelay.inMillis) := (roundedMillis_min _ _).symm
    _ ≤ b.climb F k := roundedMillis_mono hraw

/-- Where the factor adds less than that to the least delay, the climb ends there. -/
theorem climb_stays (h : (F - 1) * roundedMillis b.minDelay.inMillis < 1 / 2) :
    b.climb F (roundedMillis b.minDelay.inMillis) = roundedMillis b.minDelay.inMillis := by
  refine le_antisymm ?_ (le_climb b F _)
  rw [climb, roundedMillis_max]
  refine max_le le_rfl ?_
  refine (roundedMillis_mono (min_le_left _ _)).trans (roundedMillis_le_of_lt ?_)
  linarith

/-- A delay that is moved stays within the jitter of the one that is not. -/
theorem next_within (hb : b.Plain F j) {draw : Rat} (hlow : -1 ≤ draw) (hhigh : draw ≤ 1) (p : Duration) :
    ∃ n, b.next? .exact draw p = some (.ofMillis n) ∧ roundedMillis (b.ideal F p * (1 - j)) ≤ n ∧
      n ≤ roundedMillis (b.ideal F p * (1 + j)) := by
  have hraw := b.ideal_nonneg F p
  have hdown : -j ≤ j * draw := by nlinarith [hb.nonneg]
  have hup : j * draw ≤ j := by nlinarith [hb.nonneg]
  refine ⟨_, (hb.next?_eq draw p).trans (congrArg some (hb.next_eq draw p)), ?_, ?_⟩
  · exact roundedMillis_mono (mul_le_mul_of_nonneg_left (by linarith) hraw)
  · exact roundedMillis_mono (mul_le_mul_of_nonneg_left (by linarith) hraw)

/-- Without jitter the next delay grows with the previous one. -/
theorem next_mono (hb : b.Plain F 0) (draw draw' : Rat) (h : p.nanos ≤ q.nanos) :
    (b.next .exact draw p).nanos ≤ (b.next .exact draw' q).nanos := by
  have hF : 0 ≤ F := zero_le_one.trans hb.one_le
  have hideal : b.ideal F p ≤ b.ideal F q :=
    max_le_max_left _ (min_le_min_right _ (mul_le_mul_of_nonneg_right (Duration.inMillis_le_iff.mpr h) hF))
  rw [hb.next_of_noJitter, hb.next_of_noJitter]
  exact Duration.nanos_ofMillis_mono (roundedMillis_mono hideal) (roundedMillis_le _)

end Plain

/-! ## Bounds -/

variable {lo hi : Duration} {factor jitter : Extended} {f t : Rat}

/-- **A delay stays within its bounds.** For a factor and a jitter that are numbers, cut to at least one and to between
zero and one, for the least delay and the greatest, raised to the least where it is below:

* computing a delay does not break down, and it lies within the jitter of the previous one times the factor, kept
  between the least and the greatest, and so within the jitter of these,
* without jitter the delay grows with the previous one; it is the least delay, rounded, after none and after any that is
  too short to lead above it,
* without jitter the chain of delays that are fed back in does not depend on the draws, never falls, and never exceeds
  the greatest delay, rounded. -/
theorem next_bounds (lo hi : Duration) (hf : factor.toRat? = some f) (ht : jitter.toRat? = some t) :
    let b := make lo hi factor jitter
    let F := max f 1
    let j := max 0 (min t 1)
    let top := max hi.inMillis lo.inMillis
    let raw := fun p : Duration => max lo.inMillis (min (p.inMillis * F) top)
    (∀ p draw, -1 ≤ draw → draw ≤ 1 → ∃ n, b.next? .exact draw p = some (.ofMillis n) ∧
      roundedMillis (raw p * (1 - j)) ≤ n ∧ n ≤ roundedMillis (raw p * (1 + j)) ∧
      roundedMillis (lo.inMillis * (1 - j)) ≤ n ∧ n ≤ roundedMillis (top * (1 + j))) ∧
    (j = 0 →
      (∀ p q draw draw', p.nanos ≤ q.nanos → (b.next .exact draw p).nanos ≤ (b.next .exact draw' q).nanos) ∧
      (∀ p draw, p.inMillis * F ≤ lo.inMillis → b.next .exact draw p = .ofMillis (roundedMillis lo.inMillis)) ∧
      ∀ draws n, b.chain .exact n .zero = (List.range n).map (fun k => b.delay .exact draws (k + 1)) ∧
        b.delay .exact draws 1 = .ofMillis (roundedMillis lo.inMillis) ∧
        (b.delay .exact draws n).nanos ≤ (b.delay .exact draws (n + 1)).nanos ∧
        (b.delay .exact draws n).nanos ≤ (Duration.ofMillis (roundedMillis top)).nanos) := by
  intro b F j top raw
  have hb : b.Plain F j := plain_make lo hi (saneFactor_of_toRat? hf) (le_max_right _ _) ht
  have htop : b.maxDelay.inMillis = top := Duration.inMillis_max hi lo
  have hraw : ∀ p, b.ideal F p = raw p := fun p => by
    rw [ideal, htop]
    rfl
  refine ⟨fun p draw hlow hhigh => ?_, fun hj => ?_⟩
  · obtain ⟨n, hnext, hdown, hup⟩ := hb.next_within hlow hhigh p
    rw [hraw] at hdown hup
    refine ⟨n, hnext, hdown, hup, le_trans (roundedMillis_mono ?_) hdown, le_trans hup (roundedMillis_mono ?_)⟩
    · exact mul_le_mul_of_nonneg_right (le_max_left _ _) (by linarith [hb.le_one])
    · exact mul_le_mul_of_nonneg_right (max_le (le_max_right _ _) (min_le_right _ _)) (by linarith [hb.nonneg])
  · rw [hj] at hb
    refine ⟨fun p q draw draw' h => hb.next_mono draw draw' h, fun p draw h => ?_, fun draws n => ⟨?_, ?_, ?_, ?_⟩⟩
    · have hleast : raw p = lo.inMillis := max_eq_left (min_le_of_left_le h)
      rw [hb.next_of_noJitter, hraw, hleast]
    · rw [chain_eq_map_delay]
      exact List.map_congr_left fun k _ => (hb.delay_eq _ _).trans (hb.delay_eq _ _).symm
    · rw [hb.delay_eq]
      exact congrArg _ (climb_zero b F)
    · rw [hb.delay_eq, hb.delay_eq]
      exact Duration.nanos_ofMillis_mono (hb.iterate_climb_mono n) (iterate_climb_le b F _)
    · rw [hb.delay_eq, ← htop]
      exact Duration.nanos_ofMillis_mono (hb.iterate_climb_le_greatest n) (roundedMillis_le _)

/-- The least delay is above the greatest, and the factor below one. With a jitter of a half the delay may come down to
half of the least; without jitter the first delay is the least. -/
theorem bounded_out_of_order :
    (∃ n, (make (.ofMillis 2) (.ofMillis 1) (.finite (1 / 2)) (.finite (1 / 2))).next? .exact (-1) .zero =
      some (.ofMillis n) ∧ 1 ≤ n ∧ n ≤ 3) ∧
    (make (.ofMillis 2) (.ofMillis 1) (.finite (1 / 2)) .negativeZero).delay .exact (fun _ => 1) 1 = .ofMillis 2 := by
  have htwo : (Duration.ofMillis 2).inMillis = (2 : Nat) := Duration.inMillis_ofMillis (by decide)
  have hone : (Duration.ofMillis 1).inMillis = (1 : Nat) := Duration.inMillis_ofMillis (by decide)
  have hhalf : (Extended.finite (1 / 2)).toRat? = some (1 / 2) := rfl
  have hnone : Extended.negativeZero.toRat? = some 0 := rfl
  constructor
  · obtain ⟨hwithin, -⟩ := next_bounds (.ofMillis 2) (.ofMillis 1) hhalf hhalf
    obtain ⟨n, hnext, -, -, hlow, hhigh⟩ := hwithin .zero (-1) le_rfl (by norm_num)
    have hleast : (2 : Nat) * (1 - max 0 (min (1 / 2 : Rat) 1)) = (1 : Nat) := by norm_num
    have hmost : max ((1 : Nat) : Rat) (2 : Nat) * (1 + max 0 (min (1 / 2 : Rat) 1)) = (3 : Nat) := by norm_num
    rw [htwo, hleast, roundedMillis_natCast (by decide)] at hlow
    rw [htwo, hone, hmost, roundedMillis_natCast (by decide)] at hhigh
    exact ⟨n, hnext, hlow, hhigh⟩
  · obtain ⟨-, hplain⟩ := next_bounds (.ofMillis 2) (.ofMillis 1) hhalf hnone
    obtain ⟨-, -, hchain⟩ := hplain (by norm_num)
    obtain ⟨-, hfirst, -⟩ := hchain (fun _ => 1) 1
    rw [htwo, roundedMillis_natCast (by decide)] at hfirst
    exact hfirst

/-! ## The ceiling -/

namespace Plain

/-- Where the factor adds at least half a millisecond to the least delay, every step leads up, to the greatest. -/
theorem le_iterate_climb (hb : b.Plain F j) (h : 1 / 2 ≤ (F - 1) * roundedMillis b.minDelay.inMillis) (n : Nat) :
    min (roundedMillis b.minDelay.inMillis + n) (roundedMillis b.maxDelay.inMillis) ≤ (b.climb F)^[n + 1] 0 := by
  induction n with
  | zero =>
      rw [Function.iterate_one, climb_zero]
      exact min_le_left _ _
  | succ n ih =>
      -- No iterate is below the least delay, so the factor adds at least as much to it.
      have hleast : roundedMillis b.minDelay.inMillis ≤ (b.climb F)^[n + 1] 0 := by
        rw [Function.iterate_succ_apply']
        exact le_climb b F _
      rw [Function.iterate_succ_apply']
      generalize (b.climb F)^[n + 1] 0 = k at ih hleast ⊢
      have hcast : (roundedMillis b.minDelay.inMillis : Rat) ≤ k := by exact_mod_cast hleast
      have hadds : 1 / 2 ≤ (F - 1) * k := h.trans (mul_le_mul_of_nonneg_left hcast (by linarith [hb.one_le]))
      have hstep := climb_rises (b := b) hadds
      omega

/-- So the chain gets to the greatest delay. -/
theorem delay_reaches (hb : b.Plain F 0) (h : 1 / 2 ≤ (F - 1) * roundedMillis b.minDelay.inMillis) (draws : Nat → Rat)
    (hn : roundedMillis b.maxDelay.inMillis - roundedMillis b.minDelay.inMillis < n) :
    b.delay .exact draws n = .ofMillis (roundedMillis b.maxDelay.inMillis) := by
  obtain ⟨n, rfl⟩ := Nat.exists_eq_add_one_of_ne_zero (Nat.ne_of_gt (Nat.zero_lt_of_lt hn))
  have hlow := hb.le_iterate_climb h n
  have hhigh := hb.iterate_climb_le_greatest (n + 1)
  -- After `n` steps from the least delay, the lower bound is above the greatest.
  have hclimb : (b.climb F)^[n + 1] 0 = roundedMillis b.maxDelay.inMillis := by omega
  rw [hb.delay_eq, hclimb]

/-- Otherwise it stays at the least. -/
theorem delay_stays (hb : b.Plain F 0) (h : (F - 1) * roundedMillis b.minDelay.inMillis < 1 / 2) (draws : Nat → Rat)
    (n : Nat) : b.delay .exact draws (n + 1) = .ofMillis (roundedMillis b.minDelay.inMillis) := by
  have hclimb : (b.climb F)^[n + 1] 0 = roundedMillis b.minDelay.inMillis := by
    induction n with
    | zero => exact climb_zero b F
    | succ n ih => rw [Function.iterate_succ_apply', ih, climb_stays h]
  rw [hb.delay_eq, hclimb]

end Plain

/-- **Where the chain of delays gets to.** Without jitter, for a factor above one and a greatest delay that is not below
the least, the chain of delays that are fed back in

* reaches the greatest delay, rounded, and stays there, if and only if the least is rounded to the same or the factor
  adds at least half a millisecond to the least delay as it is rounded,
* in the latter case has reached it after as many steps as there are milliseconds between the two, and one more,
* else stays at the least delay, rounded, for ever. -/
theorem delay_reaches_iff (horder : lo.nanos ≤ hi.nanos) (hf : 1 < f) (ht : jitter.toRat? = some 0)
    (draws : Nat → Rat) :
    let b := make lo hi (.finite f) jitter
    let least := roundedMillis lo.inMillis
    let greatest := roundedMillis hi.inMillis
    ((∃ n, ∀ k, n ≤ k → b.delay .exact draws k = .ofMillis greatest) ↔
      least = greatest ∨ 1 / 2 ≤ (f - 1) * least) ∧
    (1 / 2 ≤ (f - 1) * least → ∀ k, greatest - least < k → b.delay .exact draws k = .ofMillis greatest) ∧
    ((f - 1) * least < 1 / 2 → ∀ k, b.delay .exact draws (k + 1) = .ofMillis least) := by
  intro b least greatest
  have hb : b.Plain f 0 := plain_make_of_lt hf ht
  have hmax : b.maxDelay.inMillis = hi.inMillis := by
    show (hi.max lo).inMillis = hi.inMillis
    rw [Duration.inMillis_max, max_eq_left (Duration.inMillis_le_iff.mpr horder)]
  have hmin : b.minDelay.inMillis = lo.inMillis := rfl
  have hreaches : 1 / 2 ≤ (f - 1) * least →
      ∀ k, greatest - least < k → b.delay .exact draws k = .ofMillis greatest := by
    intro h k hk
    have hend := hb.delay_reaches (n := k)
    rw [hmin, hmax] at hend
    exact hend h draws hk
  have hstays : (f - 1) * least < 1 / 2 → ∀ k, b.delay .exact draws (k + 1) = .ofMillis least := by
    intro h k
    have hend := hb.delay_stays (n := k)
    rw [hmin] at hend
    exact hend h draws
  have hinj : Duration.ofMillis least = .ofMillis greatest → least = greatest := by
    intro h
    exact Duration.ofMillis_inj (roundedMillis_le lo.inMillis) (roundedMillis_le hi.inMillis) h
  -- What the two are no longer matters; left as definitions they would be computed below.
  clear_value least greatest
  refine ⟨⟨?_, ?_⟩, hreaches, hstays⟩
  · rintro ⟨n, hn⟩
    rcases lt_or_ge ((f - 1) * least) (1 / 2) with h | h
    · exact .inl (hinj ((hstays h n).symm.trans (hn (n + 1) (Nat.le_succ n))))
    · exact .inr h
  · rintro (hsame | h)
    · rcases lt_or_ge ((f - 1) * least) (1 / 2) with h | h
      · refine ⟨1, fun k hk => ?_⟩
        obtain ⟨k, rfl⟩ := Nat.exists_eq_add_of_le' hk
        rw [hstays h, hsame]
      · exact ⟨greatest - least + 1, fun k hk => hreaches h k hk⟩
    · exact ⟨greatest - least + 1, fun k hk => hreaches h k hk⟩

/-- From 50 milliseconds by a factor of 8/5 the chain gets to five seconds. -/
theorem reaches_five_seconds :
    ∃ n, ∀ k, n ≤ k →
      (make (.ofMillis 50) (.ofMillis 5000) (.finite (8 / 5)) .zero).delay .exact (fun _ => 0) k = .ofMillis 5000 := by
  have hfifty : (Duration.ofMillis 50).inMillis = (50 : Nat) := Duration.inMillis_ofMillis (by decide)
  have hfive : (Duration.ofMillis 5000).inMillis = (5000 : Nat) := Duration.inMillis_ofMillis (by decide)
  have horder : (Duration.ofMillis 50).nanos ≤ (Duration.ofMillis 5000).nanos := by decide
  have hfactor : (1 : Rat) < 8 / 5 := by norm_num
  have hjitter : Extended.zero.toRat? = some 0 := rfl
  obtain ⟨hreaches, -⟩ := delay_reaches_iff horder hfactor hjitter fun _ => 0
  rw [hfifty, hfive, roundedMillis_natCast (by decide), roundedMillis_natCast (by decide)] at hreaches
  exact hreaches.mpr (.inr (by norm_num))

/-- From one millisecond by a factor of 5/4 it does not get to two: it is one millisecond for ever. -/
theorem stays_at_one_millisecond :
    let b := make (.ofMillis 1) (.ofMillis 2) (.finite (5 / 4)) .zero
    (Duration.ofMillis 1).nanos ≤ (Duration.ofMillis 2).nanos ∧ (1 : Rat) < 5 / 4 ∧ Extended.zero.toRat? = some 0 ∧
      (∀ k, b.delay .exact (fun _ => 0) (k + 1) = .ofMillis 1) ∧
      ¬∃ n, ∀ k, n ≤ k → b.delay .exact (fun _ => 0) k = .ofMillis 2 := by
  intro b
  have hb : b.Plain (5 / 4) 0 := plain_make_of_lt (by norm_num) rfl
  have hone : b.minDelay.inMillis = (1 : Nat) := Duration.inMillis_ofMillis (by decide)
  have hstays : ∀ k, b.delay .exact (fun _ => 0) (k + 1) = .ofMillis 1 := by
    intro k
    have hend := hb.delay_stays (n := k)
    rw [hone, roundedMillis_natCast (by decide)] at hend
    exact hend (by norm_num) _
  refine ⟨by decide, by norm_num, rfl, hstays, ?_⟩
  rintro ⟨n, hn⟩
  have hsame := (hstays n).symm.trans (hn (n + 1) (Nat.le_succ n))
  exact absurd (Duration.ofMillis_inj (by decide) (by decide) hsame) (by decide)

end Backoff

end JobWorker
