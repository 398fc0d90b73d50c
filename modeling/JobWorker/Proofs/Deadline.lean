import JobWorker.Gateway.Call
import JobWorker.Poller
import JobWorker.Proofs.Activation

/-!
# `JobWorker.Proofs.Deadline` — a caller outwaits the gateway

The time for which a gateway may hold a call is cut twice on its way: to whole milliseconds, then to 64 bits with
sign. The deadline on this side is set from what the request carries and not from the setting, so that it is never
earlier than ten seconds after the end of the long poll. None of the steps in between overflows, the deadline is a span
that the clock can count, and a gateway that answers within these ten seconds is always heard.

## Contents
- **Spans.** `Poller.start_spans`; `ActivationRequest.le_deadline`.
- **Ticks.** `Time.after_add_ten_le`, `ActivationRequest.expiry_eq`.
- **Calls.** `CallScript.run_heard`.
- **The law.** `ActivationRequest.deadline_outlasts`.
-/

namespace JobWorker

/-! ## Spans -/

/-- The request of a poller carries the two spans of its settings in whole milliseconds, within 64 bits with sign. -/
theorem Poller.start_spans (config : WorkerConfig) :
    let request := (Poller.start config).request
    request.requestTimeout = min (config.pollingTimeout.millis : Int) maxSigned64 ∧ 0 ≤ request.requestTimeout ∧
      request.timeout = min (config.timeout.millis : Int) maxSigned64 ∧ 0 ≤ request.timeout := by
  have hspan : ∀ d : Duration, ((d.millisUpTo maxSigned64 : Nat) : Int) = min (d.millis : Int) maxSigned64 := by
    intro d
    unfold Duration.millisUpTo
    omega
  exact ⟨hspan _, Int.natCast_nonneg _, hspan _, Int.natCast_nonneg _⟩

namespace ActivationRequest

variable {r : ActivationRequest}

/-- The deadline is no earlier than either of the spans it is the longer of, with ten seconds on top. -/
theorem le_deadline (h : r.requestTimeout ≤ maxSigned64) :
    20 * nanosPerSec ≤ r.deadline.nanos ∧ r.longPoll.nanos + 10 * nanosPerSec ≤ r.deadline.nanos := by
  have hleast : leastHold.nanos = 10000000000 := rfl
  have hslack : deadlineSlack.nanos = 10000000000 := rfl
  have hsecond : nanosPerSec = 1000000000 := rfl
  have hdeadline := r.nanos_deadline h
  have hpoll : r.longPoll.nanos ≤ Nat.max r.longPoll.nanos leastHold.nanos := Nat.le_max_left _ _
  have hhold : leastHold.nanos ≤ Nat.max r.longPoll.nanos leastHold.nanos := Nat.le_max_right _ _
  omega

end ActivationRequest

/-! ## Ticks -/

/-- A timer that runs ten seconds longer fires ten seconds later. -/
theorem Time.after_add_ten_le {d d' : Duration} (now : Nat) (h : d.nanos + 10 * nanosPerSec ≤ d'.nanos)
    (hsecs : d'.secs ≤ maxSigned64) : Time.after now d + 10000 ≤ Time.after now d' := by
  have hsecond : nanosPerSec = 1000000000 := rfl
  have hnanos : d.nanos ≤ d'.nanos := Nat.le_trans (Nat.le_add_right _ _) h
  have hshorter : d.secs ≤ maxSigned64 := Nat.le_trans (Nat.div_le_div_right hnanos) hsecs
  rw [Time.after, Time.after, if_pos hsecs, if_pos hshorter]
  show now + (d.nanos + 999999) / 1000000 + 10000 ≤ now + (d'.nanos + 999999) / 1000000
  omega

/-- The deadline of a request ends at a tick of the clock, ten seconds or more after the long poll. -/
theorem ActivationRequest.expiry_eq {r : ActivationRequest} (h : r.requestTimeout ≤ maxSigned64) (now : Time) :
    Time.deadline? now r.deadline = some (Time.after now r.deadline) ∧
      Time.after now r.longPoll + 10000 ≤ Time.after now r.deadline := by
  have hsecs := CallScript.secs_deadline_le h
  exact ⟨by rw [Time.deadline?, if_pos hsecs], Time.after_add_ten_le now (le_deadline h).2 hsecs⟩

/-! ## Calls -/

/-- **A gateway is heard** that ends a call within ten seconds of the long poll: where the token does not fire before
that, the call ends by what the gateway does, and never by its deadline. -/
theorem CallScript.run_heard {r : ActivationRequest} {script : CallScript} {token : Token} {entry : Time × CallEvent}
    (h : r.requestTimeout ≤ maxSigned64) (huntied : script.Untied token (Time.after 0 r.deadline))
    (hmem : entry ∈ script.course) (hend : entry.2.isEnd = true) (hin : entry.1 < Time.after 0 r.longPoll + 10000) :
    ∃ stop, (script.run token r.deadline).finishedAt = stop.1 ∧ stop.1 ≤ entry.1 ∧
      (script.run token r.deadline).result = stop.2.result? (total (script.run token r.deadline).batches) ∧
      (stop ∈ script.course ∨ token.fires? = some stop.1 ∧ stop.2 = .cancelled) := by
  obtain ⟨stop, hstop, hfinished, -, hresult⟩ := run_reported (secs_deadline_le h) huntied
  have hfirst : stop.1 ≤ entry.1 := hstop.le_end entry hmem hend
  rw [Nat.zero_add] at hresult
  refine ⟨stop, hfinished, hfirst, hresult, ?_⟩
  rcases hstop.among with rfl | ⟨hcourse, -⟩
  · rcases cut_cases token (Time.after 0 r.deadline) r.deadline with ⟨t, hfires, -, hcut⟩ | ⟨hcut, -⟩
    · rw [hcut]
      exact .inr ⟨hfires, rfl⟩
    · -- the deadline ends only later
      have hexpiry : Time.after 0 r.deadline ≤ entry.1 := by rwa [hcut] at hfirst
      have hlate := (r.expiry_eq h 0).2
      exact absurd (Nat.lt_of_le_of_lt (Nat.le_trans hlate hexpiry) hin) (Nat.lt_irrefl _)
  · exact .inl hcourse

/-! ## The law -/

/-- **A caller outwaits the gateway.** Whatever its settings, the request of a worker carries its two spans in whole
milliseconds, each cut to 64 bits with sign and never negative.

For every request whose time is at most what 64 bits with sign can say, negative ones included:

* the long poll is exactly the time it carries, and none for a negative one; a gateway that takes the call holds it
  for as long,
* the sum that gives the deadline is no longer than the longest span, and is at least 20 seconds, and at least 10
  seconds longer than the long poll,
* on the clock the deadline ends at a tick, at least 10000 milliseconds after the tick at which a call that is held
  from the same moment on is let go,
* so a call ends by its deadline only if the gateway leaves it open for ten seconds more than it may. -/
theorem ActivationRequest.deadline_outlasts (config : WorkerConfig) :
    (let request := (Poller.start config).request
     request.requestTimeout = min (config.pollingTimeout.millis : Int) maxSigned64 ∧ 0 ≤ request.requestTimeout ∧
      request.timeout = min (config.timeout.millis : Int) maxSigned64 ∧ 0 ≤ request.timeout) ∧
    ∀ r : ActivationRequest, r.requestTimeout ≤ maxSigned64 →
      (r.longPoll.nanos : Int) = max r.requestTimeout 0 * nanosPerMilli ∧
      (∀ call : Call, call.request = r → call.longPoll = r.longPoll) ∧
      callDeadline? r.longPoll = some r.deadline ∧
      20 * nanosPerSec ≤ r.deadline.nanos ∧ r.longPoll.nanos + 10 * nanosPerSec ≤ r.deadline.nanos ∧
      (∀ now, Time.deadline? now r.deadline = some (Time.after now r.deadline) ∧
        Time.after now r.longPoll + 10000 ≤ Time.after now r.deadline) ∧
      ∀ script token, CallScript.Untied script token (Time.after 0 r.deadline) →
        ∀ entry ∈ script.course, entry.2.isEnd = true → entry.1 < Time.after 0 r.longPoll + 10000 →
          ∃ stop, (script.run token r.deadline).finishedAt = stop.1 ∧ stop.1 ≤ entry.1 ∧
            (script.run token r.deadline).result =
              stop.2.result? (CallScript.total (script.run token r.deadline).batches) ∧
            (stop ∈ script.course ∨ token.fires? = some stop.1 ∧ stop.2 = .cancelled) := by
  refine ⟨Poller.start_spans config, fun r h => ⟨?_, ?_, callDeadline?_longPoll h, (le_deadline h).1,
    (le_deadline h).2, expiry_eq h, ?_⟩⟩
  · rw [r.nanos_longPoll h, Int.natCast_mul, Int.toNat_eq_max]
  · rintro call rfl
    rfl
  · intro script token huntied entry hmem hend hin
    exact CallScript.run_heard h huntied hmem hend hin

/-- A gateway that holds a call as long as 64 bits can say, and then ends it. -/
def CallScript.heldLongest : CallScript := { events := [(maxSigned64, .ended)], silent := true }

/-- The longest span there is, as a setting, is cut to 64 bits with sign, and a part of a millisecond is dropped. The
gateway that holds the call for all of that time is heard; a request with a negative time has 20 seconds. -/
theorem ActivationRequest.outlasts_longest :
    let config : WorkerConfig :=
      { jobType := "foo", workerName := "worker", timeout := .ofNanos 1999999, pollingTimeout := .longest }
    let r := (Poller.start config).request
    r.requestTimeout = 9223372036854775807 ∧ r.timeout = 1 ∧
      r.longPoll.nanos + 10 * nanosPerSec ≤ r.deadline.nanos ∧
      (∃ stop, (CallScript.heldLongest.run .never r.deadline).finishedAt = stop.1 ∧ stop.1 ≤ maxSigned64 ∧
        stop ∈ CallScript.heldLongest.course) ∧
      let negative : ActivationRequest := { requestTimeout := minSigned64 }
      negative.longPoll.nanos = 0 ∧ 20 * nanosPerSec ≤ negative.deadline.nanos := by
  intro config r
  obtain ⟨⟨hpolling, -, htimeout, -⟩, hlaw⟩ := deadline_outlasts config
  obtain ⟨-, -, -, -, hmargin, hclock, hheard⟩ := hlaw r (by decide +kernel)
  obtain ⟨hnegative, -, -, hleast, -⟩ := hlaw { requestTimeout := minSigned64 } (by decide)
  have hcourse : CallScript.heldLongest.course = [(0, .opened), (maxSigned64, .ended)] := rfl
  have hpoll : Time.after 0 r.longPoll = maxSigned64 := by decide +kernel
  have huntied : CallScript.heldLongest.Untied .never (Time.after 0 r.deadline) := by
    refine ⟨fun entry hmem => ?_, nofun⟩
    have hlate := (hclock 0).2
    rw [hpoll] at hlate
    have hbefore : entry.1 ≤ maxSigned64 := by
      revert entry
      rw [hcourse]
      decide
    exact Nat.ne_of_lt (Nat.lt_of_lt_of_le (Nat.lt_add_of_pos_right (by decide)) (Nat.le_trans
      (Nat.add_le_add_right hbefore 10000) hlate))
  obtain ⟨stop, hfinished, hfirst, -, hend⟩ := hheard .heldLongest .never huntied (maxSigned64, .ended)
    (hcourse ▸ List.mem_cons_of_mem _ List.mem_cons_self) rfl (by rw [hpoll]; decide)
  refine ⟨hpolling.trans (by decide +kernel), htimeout.trans (by decide +kernel), hmargin,
    ⟨stop, hfinished, hfirst, hend.resolve_right fun hfired => nomatch hfired.1⟩, ?_, hleast⟩
  exact Int.natCast_eq_zero.mp (hnegative.trans (by decide))

end JobWorker
