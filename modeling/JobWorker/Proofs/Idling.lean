import JobWorker.Proofs.Watch
import JobWorker.Proofs.Watch.Poller

/-!
# `JobWorker.Proofs.Idling` — an idle poller does not spin

While there are enough jobs in hand a poller takes one idle turn after the other. Each ends because a handling ended, or
after a whole interval. As a wake-up is made by a handling and is used up by the turn that it ends, there are no more idle
turns than handlings that ended and intervals that went by. A poller that goes on to wait after a handling has ended does
not wait at all.

## Contents
- **Intervals that went by.** `Duration.FitsTimes`.
- **Idle turns.** `PollerRun.run_idle_le`; `PollerRun.run_pace`, `PollerRun.run_held_eq`.
- **The law.** `PollerRun.run_never_spins`.
-/

namespace JobWorker

/-! ## Intervals that went by -/

/-- A span fits so many times into a number of ticks, one after the other: its timers do, and so does the span itself
where it is within the range of the clock. -/
def Duration.FitsTimes (d : Duration) (times : Nat) (ticks : Time) : Prop :=
  times * Time.after 0 d ≤ ticks ∧ (d.secs ≤ maxSigned64 → times * d.nanos ≤ ticks * nanosPerMilli)

theorem Duration.fitsTimes_of_le {d : Duration} {times : Nat} {ticks : Time} (h : times * Time.after 0 d ≤ ticks) :
    d.FitsTimes times ticks := by
  refine ⟨h, fun hsecs => ?_⟩
  have htimer : d.nanos ≤ (Time.after 0 d - 0) * nanosPerMilli := Time.nanos_le_of_after_le hsecs (Nat.le_refl _)
  calc times * d.nanos
      ≤ times * (Time.after 0 d * nanosPerMilli) := Nat.mul_le_mul_left _ htimer
    _ = times * Time.after 0 d * nanosPerMilli := (Nat.mul_assoc _ _ _).symm
    _ ≤ ticks * nanosPerMilli := Nat.mul_le_mul_right _ h

namespace PollerRun

variable {config : WorkerConfig} {now : Time} {v r : PollerRun} {actions : List PollerAction}

/-! ## Idle turns -/

/-- The idle turns since the poller was in no wait are no more than the wake-ups there were then, the handlings that
ended since, and the intervals that went by. -/
theorem run_idle_le (hv : v.poller.wait? = none) (h : run actions v = some r) :
    ∃ elapsed, (turns actions v).count .idle ≤ releases actions + v.queue.handled.held + elapsed ∧
      v.poller.interval.FitsTimes elapsed (r.now - v.now) := by
  obtain ⟨calls, s, hrun, hfollows, hreleases, htally, hinterval⟩ := run_watched hv h
  have account := Watch.run_accounted rfl hrun
  refine ⟨(Watch.returns calls v.watch).countP RoomReturn.ranOut, ?_, Duration.fitsTimes_of_le ?_⟩
  · have hwoken : _ ≤ v.queue.handled.held + _ := account.woken
    rw [RoomReturn.countP_not_cancelled] at htally
    omega
  · have hspent := Nat.le_trans account.spent account.timed.since_le
    rw [Watch.spent_eq hinterval, hfollows.now] at hspent
    exact Nat.le_sub_of_add_le' hspent

theorem wait?_start : (start config now).poller.wait? = none := rfl

/-- The interval is the one that was set. -/
theorem run_pace (h : run actions (start config now) = some r) : r.poller.interval = config.pollInterval := by
  obtain ⟨_, _, _, hfollows, _⟩ := run_watched wait?_start h
  exact hfollows.pace

/-- While the poller is in no wait there is the stored wake-up at most. -/
theorem run_held_eq (h : run actions (start config now) = some r) (hr : r.poller.wait? = none) :
    r.queue.handled.held = r.queue.handled.stored.toNat := by
  obtain ⟨calls, s, hrun, hfollows, _⟩ := run_watched wait?_start h
  have hstart : (start config now).watch.Attended := .apart
  have hattended := Watch.run_attended hstart hrun
  rw [Watch.Attended, Watch.isParked_of_closed (hfollows.closed hr), hfollows.queue] at hattended
  exact hattended.held_eq

/-! ## The law -/

/-- **Whoever waits for room does not spin, and does not oversleep.** Take any run of calls that wait for room at a queue,
and any run of a poller, whatever others do in between and whatever is noticed first where several things are ready.

The calls that came back before their interval was over, under a token that had not fired, and the wake-up that is
stored, if one is, are together no more than the handlings that ended so far. Within the range of the clock a call came
back before its interval was over if and only if less than the interval had elapsed.

If a handling has ended since the last call came back, the next call is over in its first step, without any time passing.

So the idle turns of a poller are no more than the handlings that ended so far and the intervals that went by. In the same
way they are counted from any point at which the poller is in no wait, but then a wake-up that is stored there can end one
more. -/
theorem run_never_spins {ι α : Type} [DecidableEq ι] {who : ι} {maxJobs : Nat} {calls : List (WatchAction ι α)}
    {s : Watch ι α} (hs : Watch.run calls (.ofMax who maxJobs) = some s)
    (hr : run actions (start config now) = some r) :
    let log := Watch.returns calls (.ofMax who maxJobs)
    (log.countP RoomReturn.isEarly + s.queue.handled.stored.toNat ≤ Watch.releases calls ∧
      ∀ back ∈ log, back.begun ≤ back.time ∧ (back.interval.secs ≤ maxSigned64 →
        (back.isEarly = true ↔
          back.fired = false ∧ (back.time - back.begun) * nanosPerMilli < back.interval.nanos))) ∧
    (s.isOpen = false → ∀ rest s', Watch.run rest s = some s' → (∀ token timer, .next token timer ∉ rest) →
      .release ∈ rest → s'.isOpen = true → ∀ token timer,
        ∃ s'', s'.perform (.next token timer) = some s'' ∧ s''.isOpen = false ∧ s''.now = s'.now) ∧
    (∃ elapsed, (turns actions (start config now)).count .idle ≤ releases actions + elapsed ∧
      config.pollInterval.FitsTimes elapsed (r.now - now)) ∧
    (r.poller.wait? = none → ∀ rest r', run rest r = some r' →
      ∃ elapsed, (turns rest r).count .idle ≤ releases rest + r.queue.handled.stored.toNat + elapsed ∧
        config.pollInterval.FitsTimes elapsed (r'.now - r.now)) := by
  intro log
  have account := Watch.run_accounted rfl hs
  refine ⟨⟨?_, fun back hmem => ?_⟩, fun hclosed rest s' hrest hnext hmem hopen token timer => ?_, ?_,
    fun hwait rest r' hrest => ?_⟩
  · have hearly : log.countP RoomReturn.isEarly + s.queue.handled.held ≤ 0 + Watch.releases calls := account.early
    have hstored : s.queue.handled.stored.toNat ≤ s.queue.handled.held := Nat.le_add_right _ _
    omega
  · obtain ⟨hbegun, -⟩ := account.told back hmem
    exact ⟨hbegun, fun hsecs => RoomReturn.isEarly_iff hsecs hbegun⟩
  · have hattended := Watch.run_attended Watch.attended_ofMax hs
    exact (Watch.run_ready hattended hclosed hrest hnext).returns_at_once hopen hmem token timer
  · exact run_idle_le wait?_start hr
  · have hidle := run_idle_le hwait hrest
    rw [run_held_eq hr hwait, run_pace hr] at hidle
    exact hidle

/-- A call is woken after 10 of its 1000 ticks, and then two handlings end while nobody waits. -/
def wakings : List (WatchAction Unit Nat) :=
  [.begin (.ofMillis 1000) false, .next true true, .pass 10, .discount, .release, .next true true, .discount, .release,
    .discount, .release]

/-- A poller that may have one job in hand, with an interval of 100 ticks. -/
def idler : PollerRun :=
  start { jobType := "foo", workerName := "worker", maxJobsActive := 1, pollInterval := .ofMillis 100 } 0

/-- With that job in hand it waits for room in two turns: in the first a handling ends after 10 ticks, in the second none
does. -/
def twoIdleTurns : List PollerAction :=
  [.alter { load := { maxJobs := 1, inHand := 1 } }, .step true true, .step true true, .step true true, .pass 10,
    .release, .step true true, .step true true, .turn, .step true true, .step true true, .step true true, .pass 100,
    .step true true, .step true true]

/-- Then a handling ends before the next turn, which waits for nothing. -/
def promptTurn : List PollerAction :=
  [.release, .turn, .step true true, .step true true, .step true true, .step true true]

/-- One of the three handlings woke the call, and a wake-up is in store; the call after the next handling is over in its
first step. Two idle turns took a handling and an interval, and the third took a handling. -/
theorem never_spins_in_three_turns :
    ∃ s r, Watch.run wakings (.ofMax () 1) = some s ∧ run twoIdleTurns idler = some r ∧
      (Watch.returns wakings (.ofMax () 1)).countP RoomReturn.isEarly = 1 ∧ s.queue.handled.stored = true ∧
      1 + 1 ≤ Watch.releases wakings ∧
      (∃ back ∈ Watch.returns wakings (.ofMax () 1), back.interval.secs ≤ maxSigned64 ∧ back.isEarly = true ∧
        (back.time - back.begun) * nanosPerMilli < back.interval.nanos) ∧
      s.isOpen = false ∧
      (∃ s' s'', Watch.run [.release, .begin (.ofMillis 1000) false] s = some s' ∧ s'.isOpen = true ∧
        s'.perform (.next true true) = some s'' ∧ s''.isOpen = false ∧ s''.now = s'.now) ∧
      turns twoIdleTurns idler = [.idle, .idle] ∧ r.now = 110 ∧
      (∃ elapsed, 2 ≤ releases twoIdleTurns + elapsed ∧ (Duration.ofMillis 100).FitsTimes elapsed 110) ∧
      r.poller.wait? = none ∧ ∃ r', run promptTurn r = some r' ∧ turns promptTurn r = [.idle] ∧
        ∃ elapsed, 1 ≤ releases promptTurn + 0 + elapsed ∧ (Duration.ofMillis 100).FitsTimes elapsed 0 := by
  obtain ⟨s, hs⟩ : ∃ s, Watch.run wakings (.ofMax () 1) = some s := ⟨_, rfl⟩
  obtain ⟨r, hr⟩ : ∃ r, run twoIdleTurns idler = some r := ⟨_, rfl⟩
  obtain ⟨⟨hearly, helapsed⟩, hprompt, hidle, hstretch⟩ := run_never_spins hs hr
  have hback : (⟨.ofMillis 1000, 0, 10, false, false⟩ : RoomReturn) ∈ Watch.returns wakings (.ofMax () 1) :=
    List.mem_singleton.mpr rfl
  have hsecs : (Duration.ofMillis 1000).secs ≤ maxSigned64 := by decide
  have hless := ((helapsed _ hback).2 hsecs).mp rfl
  have hclosed : s.isOpen = false := by
    cases hs
    rfl
  obtain ⟨s', hrest, hopen⟩ : ∃ s', Watch.run [.release, .begin (.ofMillis 1000) false] s = some s' ∧
      s'.isOpen = true := by
    cases hs
    exact ⟨_, rfl, rfl⟩
  obtain ⟨s'', hnext, hover, hnow⟩ := hprompt hclosed _ s' hrest (by simp) List.mem_cons_self hopen true true
  have hwait : r.poller.wait? = none := by
    cases hr
    rfl
  obtain ⟨r', hagain⟩ : ∃ r', run promptTurn r = some r' := by
    cases hr
    exact ⟨_, rfl⟩
  have hthird := hstretch hwait _ r' hagain
  cases hs
  cases hr
  cases hagain
  exact ⟨_, _, rfl, rfl, rfl, rfl, hearly, ⟨_, hback, hsecs, rfl, hless.2⟩, hclosed,
    ⟨s', s'', hrest, hopen, hnext, hover, hnow⟩, rfl, rfl, hidle, hwait, _, rfl, rfl, hthird⟩

end PollerRun

end JobWorker
