import JobWorker.Activation
import Mathlib.Algebra.GroupWithZero.Nat

/-!
# `JobWorker.Proofs.Activation` — what comes of an activation call

A call ends with whatever comes first: an error of the gateway, the end of its stream, the deadline, or the token. Every
response before that is handed on, whole and in order; whatever comes later is not. The one exception is a deadline
that no clock can count, with which the call breaks down before it is opened; the deadline of a request that a caller
leaves to the library is never one of these.

## Contents
- **Events.** `CallEvent.result?`, `CallEvent.jobs?`, `Activation.on_reading`.
- **Scripts.** `CallScript.course`: what the gateway does when; `CallScript.stops`: what can end the call.
- **Cuts.** `CallScript.cut_cases`, `CallScript.cutsBefore_iff`.
- **The law.** `CallScript.handed`, `CallScript.follow_reading`, `CallScript.run_outcome`.
-/

namespace JobWorker

/-! ## Events -/

namespace CallEvent

/-- The result that an event gives a call with so many jobs, if it ends the call. -/
def result? (n : Nat) : CallEvent → Option (Except ClientError Nat)
  | .ended               => some (.ok n)
  | .failed e            => some (.error e)
  | .expired deadline    => some (.error (deadlineError deadline))
  | .cancelled           => some (.error .cancelled)
  | .opened | .response _ => none

/-- Whether an event ends a call. -/
def isEnd (event : CallEvent) : Bool := (event.result? 0).isSome

/-- The jobs of a response, as far as they convert. -/
def jobs? : CallEvent → Option (List Job)
  | .response batch => some (Job.ofBatch batch)
  | _               => none

/-- How many jobs an event adds. -/
def jobCount (event : CallEvent) : Nat := (event.jobs?.map (·.length)).getD 0

theorem isSome_result? (event : CallEvent) (n : Nat) : (event.result? n).isSome = event.isEnd := by
  cases event <;> rfl

/-- Only the end of the stream gives a number of jobs. -/
theorem result?_eq_ok_iff {event : CallEvent} {total n : Nat} :
    event.result? total = some (.ok n) ↔ event = .ended ∧ n = total := by
  cases event with
  | ended => simp [result?, eq_comm]
  | opened | response _ | failed _ | expired _ | cancelled => simp [result?]

theorem jobs?_of_isEnd {event : CallEvent} (h : event.isEnd = true) : event.jobs? = none := by
  cases event with
  | response _ => cases h
  | opened | ended | failed _ | expired _ | cancelled => rfl

end CallEvent

/-- An event that ends a call finishes one that is being read, with its result. -/
theorem Activation.on_reading_of_isEnd {event : CallEvent} (h : event.isEnd = true) (n : Nat) :
    ∃ result, event.result? n = some result ∧ (Activation.reading n).on event = (.finished result, none) := by
  cases event with
  | opened | response _ => cases h
  | ended | failed _ | expired _ | cancelled => exact ⟨_, rfl, rfl⟩

/-- Any other leaves it with the jobs of the event added. -/
theorem Activation.on_reading {event : CallEvent} (h : ¬event.isEnd = true) (n : Nat) :
    (Activation.reading n).on event = (.reading (n + event.jobCount), event.jobs?) := by
  cases event with
  | opened | response _ => rfl
  | ended | failed _ | expired _ | cancelled => exact absurd rfl h

namespace CallScript

/-! ## Scripts -/

/-- What the gateway does with a call that nobody cuts short, with the ticks at which it does: no more after an event
that ends the call. -/
def courseFrom (now : Time) : List (Time × CallEvent) → List (Time × CallEvent)
  | []                       => []
  | (delay, event) :: events =>
    (now + delay, event) :: if event.isEnd then [] else courseFrom (now + delay) events

/-- What the gateway does with a call. -/
def course (script : CallScript) : List (Time × CallEvent) := courseFrom 0 script.timeline

/-- All that can end a call: the gateway, the deadline, and the token. -/
def stops (script : CallScript) (token : Token) (expiry : Time) (deadline : Duration) : List (Time × CallEvent) :=
  script.course.filter (·.2.isEnd) ++ (expiry, .expired deadline) :: token.fires?.toList.map fun t => (t, .cancelled)

variable {script : CallScript} {token : Token} {deadline : Duration} {expiry now due n : Nat}
variable {events course : List (Time × CallEvent)}

/-- Nothing comes before what it comes behind. -/
theorem le_of_mem_courseFrom {delay : Time} {event : CallEvent} {entry : Time × CallEvent}
    (h : entry ∈ courseFrom now ((delay, event) :: events)) : now + delay ≤ entry.1 := by
  induction events generalizing now delay event with
  | nil =>
      rcases List.mem_cons.mp h with rfl | hlater
      · exact Nat.le_refl _
      · split at hlater <;> cases hlater
  | cons next events ih =>
      rcases List.mem_cons.mp h with rfl | hlater
      · exact Nat.le_refl _
      · split at hlater
        · cases hlater
        · exact Nat.le_trans (Nat.le_add_right _ _) (ih hlater)

/-! ## Cuts -/

/-- A call is cut short by its token, unless the deadline ends before that fires. -/
theorem cut_cases (token : Token) (expiry : Time) (deadline : Duration) :
    (∃ t, token.fires? = some t ∧ t ≤ expiry ∧ cut token expiry deadline = (t, .cancelled)) ∨
      (cut token expiry deadline = (expiry, .expired deadline) ∧ ∀ t, token.fires? = some t → expiry < t) := by
  unfold cut
  cases token.fires? with
  | none => exact .inr ⟨rfl, fun t hfires => by cases hfires⟩
  | some t =>
      by_cases hfirst : t ≤ expiry
      · exact .inl ⟨t, rfl, hfirst, if_pos hfirst⟩
      · refine .inr ⟨if_neg hfirst, fun t hfires => ?_⟩
        cases hfires
        exact Nat.lt_of_not_le hfirst

/-- What cuts a call short ends it. -/
theorem isEnd_cut : (cut token expiry deadline).2.isEnd = true := by
  rcases cut_cases token expiry deadline with ⟨t, -, -, hcut⟩ | ⟨hcut, -⟩
  · rw [hcut]
    rfl
  · rw [hcut]
    rfl

/-- A call is cut short before whatever comes after the cut. -/
theorem cutsBefore_iff (hne : due ≠ (cut token expiry deadline).1) :
    cutsBefore token expiry due = true ↔ (cut token expiry deadline).1 < due := by
  rw [cutsBefore, Bool.or_eq_true, decide_eq_true_iff, Option.any_eq_true]
  rcases cut_cases token expiry deadline with ⟨t, hfires, hfirst, hcut⟩ | ⟨hcut, hlater⟩
  · rw [hcut] at hne ⊢
    dsimp only at hne ⊢
    constructor
    · rintro (hexpired | ⟨t', hfires', hdue⟩)
      · exact Nat.lt_of_le_of_lt hfirst hexpired
      · cases hfires.symm.trans hfires'
        exact Nat.lt_of_le_of_ne (of_decide_eq_true (Bool.and_eq_true_iff.mp hdue).2) (Ne.symm hne)
    · intro hdue
      exact .inr ⟨t, hfires, by simp [hfirst, Nat.le_of_lt hdue]⟩
  · rw [hcut]
    refine ⟨?_, .inl⟩
    rintro (hexpired | ⟨t, hfires, hdue⟩)
    · exact hexpired
    · exact Nat.lt_of_lt_of_le (hlater t hfires) (of_decide_eq_true (Bool.and_eq_true_iff.mp hdue).2)

/-! ## The law -/

/-- The jobs that are handed on up to a tick: those of each response that has come by then, with its tick. -/
def handed (stop : Time) (course : List (Time × CallEvent)) : List (Time × List Job) :=
  (course.filter fun entry => decide (entry.1 ≤ stop)).filterMap fun entry => entry.2.jobs?.map (entry.1, ·)

/-- How many jobs were handed on. -/
def total (batches : List (Time × List Job)) : Nat := (batches.map (·.2.length)).sum

theorem total_append (batches later : List (Time × List Job)) : total (batches ++ later) = total batches + total later := by
  simp [total]

theorem total_jobs? (due : Time) (event : CallEvent) : total (event.jobs?.map (due, ·)).toList = event.jobCount := by
  cases h : event.jobs? <;> simp [total, CallEvent.jobCount, h]

theorem handed_cons_of_le {event : CallEvent} (h : due ≤ n) :
    handed n ((due, event) :: course) = (event.jobs?.map (due, ·)).toList ++ handed n course := by
  rw [handed, List.filter_cons_of_pos (by simpa using h), List.filterMap_cons]
  cases event.jobs? with
  | none => rfl
  | some jobs => rfl

theorem handed_of_late (h : ∀ entry ∈ course, n < entry.1) : handed n course = [] := by
  have hnone : course.filter (fun entry => decide (entry.1 ≤ n)) = [] := by
    rw [List.filter_eq_nil_iff]
    intro entry hmem
    simpa using h entry hmem
  rw [handed, hnone]
  rfl

/-- The first of the things that end a call: the limit, or an event of the gateway before that. -/
structure FirstStop (limit : Time × CallEvent) (course : List (Time × CallEvent)) (stop : Time × CallEvent) :
    Prop where
  among : stop = limit ∨ stop ∈ course ∧ stop.2.isEnd = true
  le_limit : stop.1 ≤ limit.1
  le_end : ∀ entry ∈ course, entry.2.isEnd = true → stop.1 ≤ entry.1

/-- What is reported of a call with `n` jobs that is over at a stop. -/
structure Reported (stop : Time × CallEvent) (course : List (Time × CallEvent)) (n : Nat) (report : CallReport) :
    Prop where
  finishedAt : report.finishedAt = stop.1
  batches : report.batches = handed stop.1 course
  result : report.result = stop.2.result? (n + total report.batches)

/-- A call that is cut short reports what it has. -/
theorem Reported.cutShort {limit : Time × CallEvent} (hend : limit.2.isEnd = true)
    (hlate : ∀ entry ∈ course, limit.1 < entry.1) :
    Reported limit course n
      { batches := [], result := ((Activation.reading n).on limit.2).1.result?, finishedAt := limit.1 } := by
  obtain ⟨result, hresult, hon⟩ := Activation.on_reading_of_isEnd hend n
  refine ⟨rfl, (handed_of_late hlate).symm, ?_⟩
  rw [hon]
  exact hresult.symm

/-- **A call that is being read goes on to its first stop,** as long as nothing comes at the tick of the cut. -/
theorem follow_reading (events : List (Time × CallEvent)) (now n : Nat)
    (hapart : ∀ entry ∈ courseFrom now events, entry.1 ≠ (cut token expiry deadline).1) :
    ∃ stop, FirstStop (cut token expiry deadline) (courseFrom now events) stop ∧
      Reported stop (courseFrom now events) n (follow token expiry deadline events (.reading n) now) := by
  induction events generalizing now n with
  | nil =>
      have hnone : ∀ entry, entry ∉ courseFrom now [] := fun entry => List.not_mem_nil
      refine ⟨cut token expiry deadline, ⟨.inl rfl, Nat.le_refl _, fun entry hmem => absurd hmem (hnone entry)⟩, ?_⟩
      exact .cutShort isEnd_cut fun entry hmem => absurd hmem (hnone entry)
  | cons first events ih =>
      obtain ⟨delay, event⟩ := first
      have hdue : now + delay ≠ (cut token expiry deadline).1 := hapart _ List.mem_cons_self
      rw [follow]
      by_cases hcut : (cut token expiry deadline).1 < now + delay
      · -- the call is cut short before this event and all that follow
        have hlate : ∀ entry ∈ courseFrom now ((delay, event) :: events), (cut token expiry deadline).1 < entry.1 :=
          fun entry hmem => Nat.lt_of_lt_of_le hcut (le_of_mem_courseFrom hmem)
        refine ⟨cut token expiry deadline, ⟨.inl rfl, Nat.le_refl _, fun entry hmem _ => ?_⟩, ?_⟩
        · exact Nat.le_of_lt (hlate entry hmem)
        · rw [if_pos ((cutsBefore_iff hdue).mpr hcut)]
          exact .cutShort isEnd_cut hlate
      · have hbefore : now + delay ≤ (cut token expiry deadline).1 := Nat.le_of_not_lt hcut
        rw [if_neg (mt (cutsBefore_iff hdue).mp hcut)]
        by_cases hend : event.isEnd = true
        · -- the event ends the call
          have hcourse : courseFrom now ((delay, event) :: events) = [(now + delay, event)] := by
            rw [courseFrom, if_pos hend]
          obtain ⟨result, hresult, hon⟩ := Activation.on_reading_of_isEnd hend n
          rw [hcourse, hon]
          refine ⟨(now + delay, event), ⟨.inr ⟨List.mem_cons_self, hend⟩, hbefore, ?_⟩, rfl, ?_, hresult.symm⟩
          · intro entry hmem _
            obtain rfl := List.mem_singleton.mp hmem
            exact Nat.le_refl _
          · rw [handed_cons_of_le (Nat.le_refl _), CallEvent.jobs?_of_isEnd hend]
            rfl
        · -- the call goes on with the jobs of the event
          have hcourse : courseFrom now ((delay, event) :: events) =
              (now + delay, event) :: courseFrom (now + delay) events := by
            rw [courseFrom, if_neg hend]
          rw [hcourse] at hapart ⊢
          obtain ⟨stop, hstop, hreported⟩ := ih (now + delay) (n + event.jobCount)
            fun entry hmem => hapart entry (List.mem_cons_of_mem _ hmem)
          have hstops : now + delay ≤ stop.1 := by
            rcases hstop.among with rfl | ⟨hmem, -⟩
            · exact hbefore
            · exact le_of_mem_courseFrom (hcourse ▸ List.mem_cons_of_mem _ hmem)
          rw [Activation.on_reading hend]
          refine ⟨stop, ⟨?_, hstop.le_limit, ?_⟩, hreported.finishedAt, ?_, ?_⟩
          · exact hstop.among.imp_right fun h => ⟨List.mem_cons_of_mem _ h.1, h.2⟩
          · intro entry hmem hentry
            rcases List.mem_cons.mp hmem with rfl | hlater
            · exact absurd hentry hend
            · exact hstop.le_end entry hlater hentry
          · rw [handed_cons_of_le hstops, ← hreported.batches]
            rfl
          · refine hreported.result.trans (congrArg stop.2.result? ?_)
            rw [Nat.add_assoc, ← total_jobs? (now + delay) event, ← total_append]
            rfl

/-- A call is opened first, so it may be taken as being read from the beginning. -/
theorem follow_opening (script : CallScript) :
    follow token expiry deadline script.timeline .opening 0 =
      follow token expiry deadline script.timeline (.reading 0) 0 := by
  have hcut : (Activation.opening.on (cut token expiry deadline).2).1.result? =
      ((Activation.reading 0).on (cut token expiry deadline).2).1.result? := by
    rcases cut_cases token expiry deadline with ⟨t, -, -, hcut⟩ | ⟨hcut, -⟩
    · rw [hcut]
      rfl
    · rw [hcut]
      rfl
  unfold timeline
  rw [List.cons_append, follow, follow]
  dsimp only
  rw [hcut]
  cases script.openError with
  | none => rfl
  | some e => rfl

/-- Of what the gateway does, the end of the deadline and the token, no two come at the same tick; two things that the
gateway does may. -/
structure Untied (script : CallScript) (token : Token) (expiry : Time) : Prop where
  deadline : ∀ entry ∈ script.course, entry.1 ≠ expiry
  token : ∀ t, token.fires? = some t → t ≠ expiry ∧ ∀ entry ∈ script.course, entry.1 ≠ t

/-- Then nothing comes at the tick of the cut. -/
theorem Untied.apart (h : script.Untied token expiry) :
    ∀ entry ∈ script.course, entry.1 ≠ (cut token expiry deadline).1 := by
  intro entry hmem
  rcases cut_cases token expiry deadline with ⟨t, hfires, -, hcut⟩ | ⟨hcut, -⟩
  · rw [hcut]
    exact (h.token t hfires).2 entry hmem
  · rw [hcut]
    exact h.deadline entry hmem

/-- The cut is the first of the deadline and the token. -/
theorem FirstStop.of_stops {stop : Time × CallEvent}
    (h : FirstStop (cut token expiry deadline) script.course stop) :
    stop ∈ script.stops token expiry deadline ∧ ∀ other ∈ script.stops token expiry deadline, stop.1 ≤ other.1 := by
  have hcut : cut token expiry deadline ∈ script.stops token expiry deadline ∧
      (cut token expiry deadline).1 ≤ expiry ∧
      ∀ t, token.fires? = some t → (cut token expiry deadline).1 ≤ t := by
    rcases cut_cases token expiry deadline with ⟨t, hfires, hfirst, hcut⟩ | ⟨hcut, hlater⟩
    · rw [hcut]
      refine ⟨by simp [stops, hfires], hfirst, fun t' hfires' => ?_⟩
      cases hfires.symm.trans hfires'
      exact Nat.le_refl _
    · rw [hcut]
      exact ⟨by simp [stops], Nat.le_refl _, fun t hfires => Nat.le_of_lt (hlater t hfires)⟩
  obtain ⟨hamong, hexpiry, htoken⟩ := hcut
  refine ⟨?_, ?_⟩
  · rcases h.among with rfl | ⟨hmem, hend⟩
    · exact hamong
    · exact List.mem_append_left _ (List.mem_filter.mpr ⟨hmem, hend⟩)
  · intro other hother
    rcases List.mem_append.mp hother with hgateway | hlimit
    · obtain ⟨hmem, hend⟩ := List.mem_filter.mp hgateway
      exact h.le_end other hmem hend
    · rcases List.mem_cons.mp hlimit with rfl | htokens
      · exact Nat.le_trans h.le_limit hexpiry
      · obtain ⟨t, ht, rfl⟩ := List.mem_map.mp htokens
        exact Nat.le_trans h.le_limit (htoken t (Option.mem_toList.mp ht))

/-- A whole call is over at its first stop, as long as its deadline is a span that the clock can count. -/
theorem run_reported (hdeadline : deadline.secs ≤ maxSigned64) (huntied : script.Untied token (Time.after 0 deadline)) :
    ∃ stop, FirstStop (cut token (Time.after 0 deadline) deadline) script.course stop ∧
      Reported stop script.course 0 (script.run token deadline) := by
  have hrun : script.run token deadline =
      follow token (Time.after 0 deadline) deadline script.timeline (.reading 0) 0 := by
    rw [run, Time.deadline?, if_pos hdeadline]
    exact follow_opening script
  rw [hrun]
  exact follow_reading script.timeline 0 0 huntied.apart

/-- The deadline of a request that its caller leaves to the library is a span that the clock can count. -/
theorem secs_deadline_le {request : ActivationRequest} (h : request.requestTimeout ≤ maxSigned64) :
    request.deadline.secs ≤ maxSigned64 := by
  have hrange : request.requestTimeout ≤ 9223372036854775807 := h
  have hnanos : request.deadline.nanos ≤ 9223372036864775807000000 := by
    have hpoll : request.longPoll.nanos = request.requestTimeout.toNat * 1000000 := request.nanos_longPoll h
    have hslack : deadlineSlack.nanos = 10000000000 := rfl
    have hmax : Nat.max request.longPoll.nanos leastHold.nanos ≤ 9223372036854775807000000 :=
      Nat.max_le.mpr ⟨by omega, by decide⟩
    rw [request.nanos_deadline h]
    omega
  show request.deadline.nanos / 1000000000 ≤ 9223372036854775807
  omega

/-- **What comes of an activation call,** whatever the gateway does and when, and whenever the token fires. A deadline
that the clock can count, and that ends at no tick at which anything else happens:

* the call is over at the first of the things that can end it, and has a result,
* up to then each response was handed on as it came, in order, with those of its jobs that convert, and nothing else,
* its result is the one of the first end: the number of jobs handed on if and only if the stream ended first.

A longer deadline: the call breaks down at once. The deadline that is set for a request is no longer one. -/
theorem run_outcome (script : CallScript) (token : Token) (deadline : Duration) :
    let report := script.run token deadline
    (deadline.secs ≤ maxSigned64 → script.Untied token (Time.after 0 deadline) →
      ∃ stop ∈ script.stops token (Time.after 0 deadline) deadline,
        (∀ other ∈ script.stops token (Time.after 0 deadline) deadline, stop.1 ≤ other.1) ∧
        report.finishedAt = stop.1 ∧ report.batches = handed stop.1 script.course ∧
        report.result = stop.2.result? (total report.batches) ∧ report.result.isSome ∧
        ∀ n, report.result = some (.ok n) ↔ stop.2 = .ended ∧ n = total report.batches) ∧
    (maxSigned64 < deadline.secs → report = { batches := [], result := none, finishedAt := 0 }) ∧
    ∀ request : ActivationRequest, request.requestTimeout ≤ maxSigned64 → request.deadline.secs ≤ maxSigned64 := by
  refine ⟨?_, ?_, fun request => secs_deadline_le⟩
  · intro hdeadline huntied
    obtain ⟨stop, hstop, hfinished, hbatches, hresult⟩ := run_reported hdeadline huntied
    obtain ⟨hmem, hfirst⟩ := FirstStop.of_stops hstop
    rw [Nat.zero_add] at hresult
    have hend : stop.2.isEnd = true := by
      rcases hstop.among with rfl | ⟨-, hend⟩
      · exact isEnd_cut
      · exact hend
    refine ⟨stop, hmem, hfirst, hfinished, hbatches, hresult, ?_, fun n => ?_⟩
    · rw [hresult, CallEvent.isSome_result?, hend]
    · rw [hresult]
      exact CallEvent.result?_eq_ok_iff
  · intro hdeadline
    rw [run, Time.deadline?, if_neg (Nat.not_le.mpr hdeadline)]

/-- Two responses come, the second with a job that makes no sense, then nothing more. -/
def thenSilent : CallScript :=
  { openDelay := 1
    events := [(4, .response [.plain 1 "foo" 0]), (5, .response [.plain 2 "foo" 0, { key := 3, vars := "[]" }])]
    silent := true }

/-- A token that fires after both leaves what they brought: two jobs in all. -/
theorem thenSilent_cancelled :
    let report := thenSilent.run (.firesAt 15) (.ofSecs 20)
    (∃ stop ∈ thenSilent.stops (.firesAt 15) (Time.after 0 (.ofSecs 20)) (.ofSecs 20),
      (∀ other ∈ thenSilent.stops (.firesAt 15) (Time.after 0 (.ofSecs 20)) (.ofSecs 20), stop.1 ≤ other.1) ∧
      report.finishedAt = stop.1 ∧ report.batches = handed stop.1 thenSilent.course ∧
      report.result = stop.2.result? (total report.batches) ∧ report.result.isSome ∧
      ∀ n, report.result = some (.ok n) ↔ stop.2 = .ended ∧ n = total report.batches) ∧
    report.finishedAt = 15 ∧ report.result = some (.error .cancelled) ∧
    report.batches.map (fun batch => (batch.1, batch.2.map (·.key))) = [(5, [1]), (10, [2])] := by
  have huntied : thenSilent.Untied (.firesAt 15) (Time.after 0 (.ofSecs 20)) := by
    refine ⟨fun entry hmem => ?_, fun t hfires => ?_⟩
    · revert entry
      decide
    · cases hfires
      decide
  exact ⟨(run_outcome thenSilent (.firesAt 15) (.ofSecs 20)).1 (by decide) huntied, rfl, rfl, by decide +kernel⟩

/-- One response comes, then an error. -/
def thenFailed : CallScript :=
  { openDelay := 1, events := [(1, .response [.plain 1 "foo" 0]), (1, .failed (.rpc .unavailable "gone"))] }

/-- Within twenty seconds its job is handed on before the error comes; with the longest deadline there is, no job is
handed on and there is no result. -/
theorem thenFailed_longest :
    thenFailed.Untied .never (Time.after 0 .longest) ∧
      ((thenFailed.run .never (.ofSecs 20)).batches.map fun batch => batch.2.map (·.key)) = [[1]] ∧
      thenFailed.run .never .longest = { batches := [], result := none, finishedAt := 0 } := by
  refine ⟨⟨fun entry hmem => ?_, nofun⟩, by decide +kernel, rfl⟩
  revert entry
  decide

end CallScript

end JobWorker
