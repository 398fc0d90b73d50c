import JobWorker.Proofs.Retry

/-!
# `JobWorker.Proofs.Retry.Spacing` — how far apart the calls of a retry loop are

Between two calls lies a whole wait. So where every wait lasts some milliseconds, no two calls are closer than that,
whenever the calls come back and the token fires. Where waits are nothing, nothing holds a loop back: it can call any
number of times at one tick.

## Contents
- **Waits.** `RetryDelay.Lasts`.
- **Rounds.** `RetryRounds.called_add_le`, `RetryRounds.spaced`.
- **Runs.** `RetryRun.Tells.callTimes_eq`, `RetryRun.run_spaced`; `RetryRun.leads_at_once`.
-/

namespace JobWorker

variable {α : Type} {delay : RetryDelay} {rounds : List RetryRound} {m : Nat}

/-! ## Waits -/

/-- Every wait lasts at least so many milliseconds, and is within the range of timers. -/
def RetryDelay.Lasts (delay : RetryDelay) (m : Nat) : Prop :=
  ∀ draw attempt previous, m * nanosPerMilli ≤ (delay.delayFor draw attempt previous).nanos ∧
    (delay.delayFor draw attempt previous).secs ≤ maxSigned64

/-! ## Rounds -/

namespace RetryRounds

/-- When the last wait is over, all calls are at least one wait ago. -/
theorem called_add_le (hlasts : delay.Lasts m) (h : RetryRounds delay rounds) {time : Time}
    (hrested : RetryRound.Rested rounds time) : ∀ round ∈ rounds, round.called + m ≤ time := by
  -- The last round is a wait ago by the timer; those before it were so when it was called.
  induction h generalizing time with
  | none => simp
  | @next rounds last h hfollows ih =>
      obtain ⟨hdue, hnanos⟩ := hrested last List.getLast?_concat
      obtain ⟨hlong, hrange⟩ := hlasts last.draw last.attempt last.previous
      rw [← hfollows.wait] at hlong hrange
      have hover : m ≤ time - last.returned :=
        Nat.le_of_mul_le_mul_right (Nat.le_trans hlong (hnanos hrange)) (by decide)
      have hpassed : last.returned ≤ time := Nat.le_trans (Time.le_after _ last.wait) hdue
      intro round hmem
      rcases List.mem_append.mp hmem with hold | hnew
      · exact Nat.le_trans (ih hfollows.rested round hold) (Nat.le_trans hfollows.returned hpassed)
      · cases List.mem_singleton.mp hnew
        exact Nat.le_trans (Nat.add_le_add_right hfollows.returned m) (Nat.add_le_of_le_sub' hpassed hover)

/-- Another call keeps the distance. -/
theorem spaced_concat (hlasts : delay.Lasts m) (h : RetryRounds delay rounds) {time : Time}
    (hrested : RetryRound.Rested rounds time) (hspaced : (rounds.map (·.called)).Pairwise fun t t' => t + m ≤ t') :
    (rounds.map (·.called) ++ [time]).Pairwise fun t t' => t + m ≤ t' := by
  rw [List.pairwise_append]
  refine ⟨hspaced, List.pairwise_singleton _ _, ?_⟩
  intro called hcalled later hlater
  obtain ⟨round, hmem, rfl⟩ := List.mem_map.mp hcalled
  cases List.mem_singleton.mp hlater
  exact called_add_le hlasts h hrested round hmem

theorem spaced (hlasts : delay.Lasts m) (h : RetryRounds delay rounds) :
    (rounds.map (·.called)).Pairwise fun t t' => t + m ≤ t' := by
  induction h with
  | none => exact .nil
  | next h hfollows ih =>
      rw [List.map_append]
      exact spaced_concat hlasts h hfollows.rested ih

end RetryRounds

/-! ## Runs -/

namespace RetryRun

variable {r : RetryRun α} {log : List (RetryEvent α)} {actions : List (RetryAction α)} {cancelled : Bool} {now : Time}

theorem callTimes_rounds (rounds : List RetryRound) (rest : List (RetryEvent α)) :
    Retry.callTimes (rounds.flatMap (·.events) ++ rest) = rounds.map (·.called) ++ Retry.callTimes rest := by
  induction rounds with
  | nil => rfl
  | cons round rounds ih =>
      rw [List.flatMap_cons, List.append_assoc, List.map_cons, List.cons_append, ← ih]
      rfl

/-- The calls of a log are those of its rounds, and at most one more, when the last wait is over. -/
theorem Tells.callTimes_eq (ht : r.Tells rounds log) : Retry.callTimes log = rounds.map (·.called) ∨
    ∃ called, Retry.callTimes log = rounds.map (·.called) ++ [called] ∧ RetryRound.Rested rounds called := by
  have hrounds : Retry.callTimes (rounds.flatMap (·.events (α := α))) = rounds.map (·.called) := by
    have h := callTimes_rounds (α := α) rounds []
    rw [List.append_nil] at h
    exact h.trans (List.append_nil _)
  unfold Tells at ht
  cases hphase : r.loop.phase with
  | looking =>
      rw [hphase] at ht
      obtain ⟨rfl, -⟩ := ht
      exact .inl hrounds
  | waiting due =>
      rw [hphase] at ht
      obtain ⟨rfl, -⟩ := ht
      exact .inl hrounds
  | calling =>
      rw [hphase] at ht
      obtain ⟨called, rfl, hrested, -⟩ := ht
      exact .inr ⟨called, callTimes_rounds _ _, hrested⟩
  | failed =>
      rw [hphase] at ht
      obtain ⟨called, returned, e, rfl, hrested, -⟩ := ht
      exact .inr ⟨called, callTimes_rounds _ _, hrested⟩
  | finished result =>
      rw [hphase] at ht
      rcases ht with ⟨called, returned, rfl, hrested, -⟩ | ⟨rfl, -⟩
      · exact .inr ⟨called, callTimes_rounds _ _, hrested⟩
      · exact .inl hrounds

/-- **The calls of a loop are at least a wait apart.** -/
theorem run_spaced (hlasts : delay.Lasts m) (h : run actions (start delay cancelled now) = some r) :
    (Retry.callTimes (history actions (start delay cancelled now))).Pairwise fun t t' => t + m ≤ t' := by
  obtain ⟨-, rounds, hrounds, -, ht⟩ := run_told h
  rcases ht.callTimes_eq with hcalls | ⟨called, hcalls, hrested⟩
  · rw [hcalls]
    exact hrounds.spaced hlasts
  · rw [hcalls]
    exact hrounds.spaced_concat hlasts hrested (hrounds.spaced hlasts)

/-- Where no wait leads to no wait, a loop can call any number of times at one tick. -/
theorem leads_at_once (hnone : ∀ draw attempt, delay.delayFor draw attempt .zero = .zero) (now : Time) (calls : Nat)
    (state : RetryState) (hstate : state.previous = .zero) :
    ∃ log r, Leads (α := α) { loop := { delay, state }, now, cancelled := false } log r ∧
      Retry.callTimes log = List.replicate calls now := by
  induction calls generalizing state with
  | zero => exact ⟨[], _, ⟨[], rfl, rfl⟩, rfl⟩
  | succ calls ih =>
      have hnext : (state.next delay 0).previous = .zero := by
        rw [RetryState.next, hstate]
        exact hnone _ _
      have hdue : Time.after (now + 0) (state.next delay 0).previous = now := by
        rw [hnext]
        rfl
      have hpassing : isPassing (.error (.rpc .unavailable "") : Except ClientError α) = true := rfl
      have hround := leads_round delay state now 0 hpassing
      have hrested := leads_rested (α := α) delay (state.next delay 0) now (Nat.le_refl _)
      obtain ⟨log, r, hrest, hcalls⟩ := ih _ hnext
      dsimp only at hround
      rw [hdue] at hround
      exact ⟨_, r, hround.trans (hrested.trans hrest), congrArg (now :: ·) hcalls⟩

end RetryRun

end JobWorker
