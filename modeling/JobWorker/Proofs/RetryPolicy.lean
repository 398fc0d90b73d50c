import JobWorker.Proofs.Backoff.Rounded
import JobWorker.Proofs.Retry.Spacing
import JobWorker.RetryPolicy

/-!
# `JobWorker.Proofs.RetryPolicy` — whether retries wait

Without jitter no delay of a policy is below its initial interval, for every coefficient that is a number in the end:
one that is none, or negative, counts as one. Rounding to double precision changes nothing in that for an interval of
up to `2^50` milliseconds, so the calls of a retry loop are as far apart as the policy says. A positive infinity is not
caught: every delay is zero then, and a loop calls again and again at one tick.

## Contents
- **Coefficients.** `RetryPolicy.plain_toBackoff`, `RetryPolicy.lasts_toBackoff`; `RetryPolicy.calls_at_once`.
- **The law.** `RetryPolicy.run_waits`.
-/

namespace JobWorker

namespace RetryPolicy

variable {p : RetryPolicy} {n : Nat}

theorem toRat?_jitter (hjitter : p.jitter.toRat? = some 0) : p.toBackoff.jitter.toRat? = some 0 := by
  have h := Backoff.toRat?_saneJitter hjitter
  rw [min_eq_left zero_le_one, max_self] at h
  exact h

theorem factor_of_infinite (hinfinite : p.coefficient = .infinity false) : p.toBackoff.factor = .infinity false := by
  show Backoff.saneFactor p.coefficient = .infinity false
  rw [hinfinite]
  rfl

/-- Under an infinite coefficient a loop can call any number of times at one tick. -/
theorem calls_at_once (hinfinite : p.coefficient = .infinity false) {α : Type} (now : Time) (calls : Nat) :
    ∃ actions r, RetryRun.run actions (RetryRun.start (α := α) (.backoff p.toBackoff) false now) = some r ∧
      Retry.callTimes (RetryRun.history actions (.start (.backoff p.toBackoff) false now)) =
        List.replicate calls now := by
  have hnone : ∀ draw attempt, (RetryDelay.backoff p.toBackoff).delayFor draw attempt .zero = .zero := by
    intro draw _
    exact Backoff.next_of_infinite Binary64.round_loses.zero (factor_of_infinite hinfinite) draw
  obtain ⟨log, r, ⟨actions, hrun, rfl⟩, hcalls⟩ := RetryRun.leads_at_once hnone now calls {} rfl
  exact ⟨actions, r, hrun, hcalls⟩

theorem plain_toBackoff (hfinite : p.coefficient ≠ .infinity false) (hjitter : p.jitter.toRat? = some 0) :
    ∃ F, p.toBackoff.Plain F 0 := by
  obtain ⟨F, hone, hF⟩ := Backoff.exists_saneFactor hfinite
  exact ⟨F, Backoff.plain_make_of_noJitter _ _ hF hone hjitter⟩

/-- The waits of a policy, in double precision, are no shorter than its initial interval, up to `2^50` milliseconds. -/
theorem lasts_toBackoff (hfinite : p.coefficient ≠ .infinity false) (hjitter : p.jitter.toRat? = some 0)
    (hinit : p.initialInterval = .ofMillis n) (hpos : 1 ≤ n) (hn : n ≤ maxUnsigned64) :
    (RetryDelay.backoff p.toBackoff).Lasts (min n (2 ^ 50)) := by
  obtain ⟨F, hplain⟩ := plain_toBackoff hfinite hjitter
  have hmillis : p.initialInterval.inMillis = n := by
    rw [hinit, Duration.inMillis_ofMillis hn]
  have hleast : ((min n (2 ^ 50) : Nat) : Rat) ≤ p.initialInterval.inMillis := by
    rw [hmillis]
    exact_mod_cast min_le_left n (2 ^ 50)
  have hloss : ((min n (2 ^ 50) : Nat) : Rat) * (4 * (1 / 2 ^ 53)) ≤ 1 / 2 := by
    have hcap : ((min n (2 ^ 50) : Nat) : Rat) ≤ 2 ^ 50 := by exact_mod_cast min_le_right n (2 ^ 50)
    calc ((min n (2 ^ 50) : Nat) : Rat) * (4 * (1 / 2 ^ 53))
        ≤ 2 ^ 50 * (4 * (1 / 2 ^ 53)) := mul_le_mul_of_nonneg_right hcap (by norm_num)
      _ = 1 / 2 := by norm_num
  intro draw attempt previous
  refine ⟨?_, Backoff.secs_next_le _ _ _ _⟩
  exact Backoff.le_next Binary64.round_loses hplain (le_min hpos (by norm_num)) ((min_le_left _ _).trans hn) hloss
    hleast draw previous

/-- **Whether retries wait.** Without jitter, for an initial interval of a whole number of milliseconds, from one to
`2^53`:

* in exact arithmetic computing a delay never breaks down, whatever the coefficient,
* for every coefficient but the positive infinity, no delay of the chain that starts from no delay is below the initial
  interval; and in double precision the calls of a retry loop are always as far apart, up to `2^50` milliseconds,
* for the positive infinity every delay of the chain is zero; and a loop can call any number of times at one tick. -/
theorem run_waits {α : Type} (hinit : p.initialInterval = .ofMillis n) (hpos : 1 ≤ n) (hn : n ≤ 2 ^ 53)
    (hjitter : p.jitter.toRat? = some 0) :
    let b := p.toBackoff
    let start := RetryRun.start (α := α) (.backoff b)
    (∀ draw previous, b.next? .exact draw previous = some (b.next .exact draw previous)) ∧
    (p.coefficient ≠ .infinity false →
      (∀ draws k, p.initialInterval.nanos ≤ (b.delay .exact draws (k + 1)).nanos) ∧
      ∀ actions cancelled now r, RetryRun.run actions (start cancelled now) = some r →
        (Retry.callTimes (RetryRun.history actions (start cancelled now))).Pairwise fun t t' =>
          t + min n (2 ^ 50) ≤ t') ∧
    (p.coefficient = .infinity false →
      (∀ draws k, b.delay .exact draws k = .zero) ∧
      ∀ now calls, ∃ actions r, RetryRun.run actions (start false now) = some r ∧
        Retry.callTimes (RetryRun.history actions (start false now)) = List.replicate calls now) := by
  intro b start
  have hcap : n ≤ maxUnsigned64 := by
    unfold maxUnsigned64
    omega
  refine ⟨?_, fun hfinite => ⟨?_, ?_⟩, fun hinfinite => ?_⟩
  · have hordered : p.initialInterval.inMillis ≤ (p.maxInterval.max p.initialInterval).inMillis := by
      rw [Duration.inMillis_max]
      exact le_max_right _ _
    exact Backoff.next?_of_noJitter hordered (toRat?_jitter hjitter)
  · obtain ⟨F, hplain⟩ := plain_toBackoff hfinite hjitter
    intro draws k
    have hleast : (n : Rat) ≤ p.initialInterval.inMillis := by rw [hinit, Duration.inMillis_ofMillis hcap]
    have hnext := Backoff.le_next Rounding.exact_loses hplain hpos hcap (by norm_num) hleast (draws k)
    rw [hinit, Duration.nanos_ofMillis hcap]
    exact hnext _
  · intro actions cancelled now r h
    exact RetryRun.run_spaced (lasts_toBackoff hfinite hjitter hinit hpos hcap) h
  · exact ⟨Backoff.delay_of_infinite Rounding.exact_loses.zero (factor_of_infinite hinfinite), calls_at_once hinfinite⟩

/-- A coefficient that is no number counts as one, so the calls are 50 milliseconds apart where nothing else is set. -/
theorem nan_waits :
    let p : RetryPolicy := { coefficient := .nan, jitter := .zero }
    let start := RetryRun.start (α := String) (.backoff p.toBackoff)
    (∀ draws k, p.initialInterval.nanos ≤ (p.toBackoff.delay .exact draws (k + 1)).nanos) ∧
      ∀ actions r, RetryRun.run actions (start false 0) = some r →
        (Retry.callTimes (RetryRun.history actions (start false 0))).Pairwise fun t t' => t + 50 ≤ t' := by
  intro p start
  obtain ⟨-, hwaits, -⟩ := run_waits (α := String) (p := p) (n := 50) rfl (by norm_num) (by norm_num) rfl
  have hnumber : p.coefficient ≠ .infinity false := nofun
  exact ⟨(hwaits hnumber).1, fun actions r => (hwaits hnumber).2 actions false 0 r⟩

/-- An infinite coefficient, set as it can be, leads to delays of zero and to calls without a wait between them. -/
theorem infinity_never_waits :
    let p := (standard.withCoefficient (.infinity false)).withJitter .zero
    let start := RetryRun.start (α := String) (.backoff p.toBackoff) false 0
    p.initialInterval = .ofMillis 50 ∧ p.jitter.toRat? = some 0 ∧ p.coefficient = .infinity false ∧
      ¬(∀ draws k, p.initialInterval.nanos ≤ (p.toBackoff.delay .exact draws (k + 1)).nanos) ∧
      ∃ actions r, RetryRun.run actions start = some r ∧
        Retry.callTimes (RetryRun.history actions start) = [0, 0, 0] := by
  intro p start
  have hjitter : p.jitter.toRat? = some 0 := by decide
  refine ⟨rfl, hjitter, rfl, fun hwaits => ?_, calls_at_once rfl 0 3⟩
  have hfirst := hwaits (fun _ => 0) 0
  rw [Backoff.delay_of_infinite Rounding.exact_loses.zero (factor_of_infinite rfl)] at hfirst
  exact absurd hfirst (by decide)

end RetryPolicy

end JobWorker
