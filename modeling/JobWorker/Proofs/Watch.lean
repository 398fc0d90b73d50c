import JobWorker.Proofs.Wakeup.Dispatcher
import JobWorker.Proofs.Watch.Step

/-!
# `JobWorker.Proofs.Watch` — what a wake-up is worth

Every handling that ends makes at most one wake-up. A wake-up is stored or given to whoever waits, may fall together with
another, and ends at most one wait. So the calls that came back early, and the wake-ups that are there, are never more
than the handlings that ended. Those that came back because their interval was over cost time instead: one whole interval
each, and no two of these overlap.

The other way round no wake-up is overlooked. Between two calls nobody stands in the line, so that a handling that ends
then leaves a wake-up behind, and the next call takes it in its first step.

## Contents
- **Wake-ups.** `Signal.held` and what each operation makes of it; `CapacityWait.Step.uses`.
- **Time.** `Watch.since`, `Watch.Timed`, `Watch.spent`.
- **The account.** `Watch.Accounted`, kept by `Watch.Step.accounted`; `Watch.run_accounted`.
- **One waiter.** `Watch.isParked`, `Watch.Attended`, `Watch.run_attended`.
- **Wake-ups in store.** `Watch.Ready`, `Watch.run_ready`.
-/

namespace JobWorker

/-! ## Wake-ups -/

namespace Signal

variable {ι : Type} {s s' : Signal ι} {who : ι}

/-- How many wake-ups are there: stored, or given to somebody who has not noticed yet. -/
def held (s : Signal ι) : Nat := s.stored.toNat + s.woken.length

/-- Whoever raises the signal makes one at most. -/
theorem held_notify_le : s.notify.held ≤ s.held + 1 := by
  unfold notify held
  split
  · show true.toNat + s.woken.length ≤ s.stored.toNat + s.woken.length + 1
    rw [Bool.toNat_true]
    omega
  · rw [List.length_append, List.length_singleton]
    exact Nat.le_refl _

/-- Whoever begins to wait takes the stored one, if there is one. -/
theorem held_wait : (s.wait who).1.held + (s.wait who).2.toNat = s.held := by
  obtain ⟨stored, waiting, woken⟩ := s
  cases stored with
  | true => exact Nat.add_right_comm 0 woken.length 1
  | false => rfl

/-- For one who is not parked there can only be the stored one. -/
theorem Serves.held_eq (h : Serves who false s) : s.held = s.stored.toNat := by
  cases h
  rfl

variable [DecidableEq ι]

/-- Whoever notices a wake-up uses it up. -/
theorem held_take (h : s.take? who = some s') : s'.held + 1 = s.held := by
  unfold take? at h
  split at h
  · rename_i hwoken
    cases h
    have hpos : 0 < s.woken.length := List.length_pos_of_mem hwoken
    have hlength : (s.woken.erase who).length = s.woken.length - 1 := List.length_erase_of_mem hwoken
    show s.stored.toNat + (s.woken.erase who).length + 1 = s.stored.toNat + s.woken.length
    omega
  · cases h

/-- Whoever leaves makes none. -/
theorem held_leave_le : (s.leave who).held ≤ s.held := by
  unfold leave
  split
  · rename_i hwoken
    have htake : s.take? who = some { s with woken := s.woken.erase who } := if_pos hwoken
    exact held_take htake ▸ held_notify_le
  · exact Nat.le_refl _

end Signal

namespace CapacityWait

variable {ι α : Type} [DecidableEq ι] {id : ι} {now : Time} {cancelled : Bool} {q q' : JobQueue ι α}
variable {wait wait' : CapacityWait}

/-- **A wait that is over used a wake-up up,** or its token had fired, or its interval was over. -/
theorem Step.uses (step : Step id now cancelled q wait q' wait') :
    (wait' = .finished false ∧ q'.handled.held + 1 = q.handled.held) ∨
    q'.handled.held ≤ q.handled.held ∧ (wait' = .finished true → cancelled = true) ∧
      ∀ due, wait.due? = some due → wait' = .finished false → due ≤ now := by
  have hwait : (q.handled.wait id).1.held + (q.handled.wait id).2.toNat = q.handled.held := Signal.held_wait
  cases step with
  | turnBack hcancelled =>
      exact .inr ⟨Nat.le_refl _, fun _ => hcancelled, by simp⟩
  | giveUp hcancelled =>
      exact .inr ⟨Signal.held_leave_le, fun _ => hcancelled, by simp⟩
  | comeLate hdue =>
      exact .inr ⟨Nat.le_refl _, by simp, by simpa [due?] using hdue⟩
  | timeOut hdue =>
      exact .inr ⟨Signal.held_leave_le, by simp, by simpa [due?] using hdue⟩
  | passBy hwoken =>
      rw [hwoken] at hwait
      exact .inl ⟨rfl, hwait⟩
  | park hwoken =>
      rw [hwoken] at hwait
      exact .inr ⟨Nat.le_of_eq hwait, by simp, by simp⟩
  | wake htake => exact .inl ⟨rfl, Signal.held_take htake⟩

/-- Whoever leaves a wait makes no wake-up. -/
theorem held_forget_le : (wait.forget id q).handled.held ≤ q.handled.held := by
  cases wait with
  | parked due => exact Signal.held_leave_le
  | entering due | finished stopped => exact Nat.le_refl _

/-! ## Places in the line -/

/-- Whether a wait stands in the line of the signal. -/
def isParked : CapacityWait → Bool
  | .parked _ => true
  | _         => false

theorem forget_of_unparked (h : wait.isParked = false) : wait.forget id q = q := by
  cases wait with
  | parked due => cases h
  | entering due | finished stopped => rfl

/-- Whoever waits stays the only waiter of the signal, step by step. -/
theorem Step.serves (step : Step id now cancelled q wait q' wait') (h : q.handled.Serves id wait.isParked) :
    q'.handled.Serves id wait'.isParked := by
  have hwait : wait.isParked = false →
      (q.handled.wait id).1.Serves id (!(q.handled.wait id).2) := fun hnot => (hnot ▸ h : Signal.Serves id false _).wait.1
  cases step with
  | turnBack | comeLate => exact h
  | passBy hwoken | park hwoken =>
      have hserves := hwait rfl
      rw [hwoken] at hserves
      exact hserves
  | giveUp | timeOut => exact h.leave
  | wake htake => exact h.take htake

/-- And so until the wait is left. -/
theorem serves_forget (h : q.handled.Serves id wait.isParked) : (wait.forget id q).handled.Serves id false := by
  cases wait with
  | parked due => exact h.leave
  | entering due | finished stopped => exact h

/-- With a wake-up in store a wait is over in its first step, whatever else is ready. -/
theorem step_of_stored (h : q.handled.stored = true) (id : ι) (due now : Time) (cancelled token timer : Bool) :
    ∃ q' stopped, (entering due).step id now cancelled token timer q = some (q', .finished stopped) := by
  simp only [step, Signal.wait, h, if_true]
  split
  · exact ⟨_, _, rfl⟩
  split
  · exact ⟨_, _, rfl⟩
  · exact ⟨_, _, rfl⟩

end CapacityWait

namespace Watch

variable {ι α : Type} {v s s' : Watch ι α} {action : WatchAction ι α}
variable {actions past : List (WatchAction ι α)} {log events : List RoomReturn} {call : RoomCall}

/-! ## Time -/

/-- The tick up to which the time of the calls that are over can have gone: the beginning of the open call, or now. -/
def since (s : Watch ι α) : Time :=
  match s.call with
  | some call => if call.wait.isOver then s.now else call.begun
  | none      => s.now

/-- The last call has begun by now, and while it is not over its timer is that of its interval. -/
def Timed (s : Watch ι α) : Prop :=
  ∀ call, s.call = some call → call.begun ≤ s.now ∧
    ∀ due, call.wait.due? = some due → due = Time.after call.begun call.interval

/-- How long the calls took whose interval was over when they came back, at least. -/
def spent : List RoomReturn → Time
  | []          => 0
  | back :: log => (if back.ranOut then Time.after 0 back.interval else 0) + spent log

theorem spent_append (log log' : List RoomReturn) : spent (log ++ log') = spent log + spent log' := by
  induction log with
  | nil => exact (Nat.zero_add _).symm
  | cons back log ih => rw [List.cons_append, spent, spent, ih, Nat.add_assoc]

theorem spent_singleton (back : RoomReturn) :
    spent [back] = if back.ranOut then Time.after 0 back.interval else 0 := Nat.add_zero _

/-- Where all of them had the same interval, they took it each. -/
theorem spent_eq {interval : Duration} (h : ∀ back ∈ log, back.interval = interval) :
    spent log = log.countP RoomReturn.ranOut * Time.after 0 interval := by
  induction log with
  | nil => exact (Nat.zero_mul _).symm
  | cons back log ih =>
      have hrest := ih fun other hmem => h other (List.mem_cons_of_mem _ hmem)
      rw [spent, h back List.mem_cons_self, hrest, List.countP_cons, Nat.add_mul]
      cases back.ranOut with
      | true => simp [Nat.add_comm]
      | false => simp

theorem Timed.since_le (hs : s.Timed) : s.since ≤ s.now := by
  unfold since
  split
  · rename_i call hcall
    split
    · exact Nat.le_refl _
    · exact (hs call hcall).1
  · exact Nat.le_refl _

theorem since_of_due {due : Time} (hcall : s.call = some call) (hdue : call.wait.due? = some due) :
    s.since = call.begun := by
  have hopen : call.wait.isOver = false := CapacityWait.isOver_of_due hdue
  simp [since, hcall, hopen]

/-! ## The account -/

/-- The account of a run that began in `v`: what the wake-ups and the time of the calls that came back went into. -/
structure Accounted (v : Watch ι α) (past : List (WatchAction ι α)) (log : List RoomReturn) (s : Watch ι α) : Prop where
  timed : s.Timed
  woken : log.countP RoomReturn.isWoken + s.queue.handled.held ≤ v.queue.handled.held + releases past
  spent : v.now + Watch.spent log ≤ s.since
  told : ∀ back ∈ log, back.begun ≤ back.time ∧ (back.fired = false → back.cancelled = false)

/-- An action by which no call comes back leaves the account in order, as long as it makes no wake-up and time goes on. -/
theorem Accounted.aside (hs : Accounted v past log s) (htimed : s'.Timed)
    (hheld : s'.queue.handled.held ≤ s.queue.handled.held + action.isRelease.toNat) (hsince : s.since ≤ s'.since) :
    Accounted v (past ++ [action]) (log ++ []) s' := by
  have hwoken := hs.woken
  rw [List.append_nil]
  refine ⟨htimed, ?_, Nat.le_trans hs.spent hsince, hs.told⟩
  rw [releases_concat]
  omega

variable [DecidableEq ι]

/-- A call that comes back was woken or its interval was over, unless its token had fired. -/
theorem Accounted.comeBack {queue : JobQueue ι α} {cancelled : Bool} (hs : Accounted v past log s)
    (hcall : s.call = some call) (hnext : action.isRelease = false)
    (step : CapacityWait.Step s.who s.now call.cancelled s.queue call.wait queue (.finished cancelled)) :
    Accounted v (past ++ [action]) (log ++ [call.comeBack s.now cancelled])
      { s with queue, call := some { call with wait := .finished cancelled } } := by
  obtain ⟨due, hwait⟩ := step.exists_due
  obtain ⟨hbegun, hdue⟩ := hs.timed call hcall
  have hafter : due = call.begun + Time.after 0 call.interval := (hdue due hwait).trans (Time.after_eq_add _ _)
  have hreturn : (call.comeBack s.now cancelled).due = due := (hdue due hwait).symm
  refine ⟨?_, ?_, ?_, ?_⟩
  · rintro call' ⟨⟩
    exact ⟨hbegun, fun due' hover => nomatch hover⟩
  · rw [List.countP_append, List.countP_singleton, releases_concat, hnext, RoomReturn.isWoken, hreturn]
    have hwoken := hs.woken
    rcases step.uses with ⟨hfalse, hheld⟩ | ⟨hheld, -, hlate⟩
    · show _ + _ + queue.handled.held ≤ _
      split <;> simp only [Bool.toNat_false] <;> omega
    · have hnot : (decide (s.now < due) && !cancelled) = false := by
        cases cancelled with
        | true => exact Bool.and_false _
        | false => simpa using hlate due hwait rfl
      show _ + (if (decide (s.now < due) && !cancelled) = true then 1 else 0) + queue.handled.held ≤ _
      rw [hnot]
      simp only [Bool.false_eq_true, if_false, Bool.toNat_false]
      omega
  · have hspent := hs.spent
    rw [since_of_due hcall hwait] at hspent
    show v.now + Watch.spent (log ++ [call.comeBack s.now cancelled]) ≤ s.now
    rw [spent_append, spent_singleton]
    split
    · rename_i hout
      have hlate : due ≤ s.now := by
        rw [RoomReturn.ranOut, hreturn, Bool.and_eq_true, decide_eq_true_eq] at hout
        exact hout.1
      calc v.now + (Watch.spent log + Time.after 0 call.interval)
          = v.now + Watch.spent log + Time.after 0 call.interval := (Nat.add_assoc _ _ _).symm
        _ ≤ call.begun + Time.after 0 call.interval := Nat.add_le_add_right hspent _
        _ = due := hafter.symm
        _ ≤ s.now := hlate
    · exact Nat.le_trans hspent hbegun
  · intro back hmem
    rcases List.mem_append.mp hmem with hmem | hmem
    · exact hs.told back hmem
    · rw [List.mem_singleton.mp hmem]
      refine ⟨hbegun, fun hfired => ?_⟩
      rcases step.uses with ⟨hfalse, -⟩ | ⟨-, htoken, -⟩
      · exact CapacityWait.finished.inj hfalse
      · cases cancelled with
        | false => rfl
        | true => exact (htoken rfl).symm.trans hfired

/-- **Every action leaves the account in order.** -/
theorem Step.accounted (step : s.Step action events s') (hs : Accounted v past log s) :
    Accounted v (past ++ [action]) (log ++ events) s' := by
  have htimed := hs.timed
  cases step with
  | begin hclosed =>
      refine hs.aside ?_ (Nat.le_refl _) htimed.since_le
      rintro call ⟨⟩
      exact ⟨Nat.le_refl _, fun due hdue => (Option.some.inj hdue).symm⟩
  | @park token timer call due hcall hentering hwoken =>
      obtain ⟨hbegun, hdue⟩ := htimed call hcall
      refine hs.aside ?_ ?_ ?_
      · rintro call' ⟨⟩
        exact ⟨hbegun, by rwa [hentering] at hdue⟩
      · have hwait : (s.queue.handled.wait s.who).1.held + (s.queue.handled.wait s.who).2.toNat = s.queue.handled.held :=
          Signal.held_wait
        rw [hwoken] at hwait
        exact Nat.le_of_eq hwait
      · rw [since_of_due hcall (by rw [hentering]; rfl)]
        exact Nat.le_refl _
  | comeBack hcall hstep => exact hs.comeBack hcall rfl hstep
  | leave hcall =>
      refine hs.aside (fun call hnone => nomatch hnone) ?_ htimed.since_le
      exact CapacityWait.held_forget_le
  | @cancel call hcall =>
      refine hs.aside ?_ (Nat.le_refl _) ?_
      · rintro call' ⟨⟩
        exact htimed call hcall
      · simp only [since, hcall]
        exact Nat.le_refl _
  | discount | alter => exact hs.aside htimed (Nat.le_refl _) (Nat.le_refl _)
  | release => exact hs.aside htimed Signal.held_notify_le (Nat.le_refl _)
  | pass =>
      refine hs.aside ?_ (Nat.le_refl _) ?_
      · intro call hcall
        obtain ⟨hbegun, hdue⟩ := htimed call hcall
        exact ⟨Nat.le_trans hbegun (Nat.le_add_right _ _), hdue⟩
      · unfold since
        cases s.call with
        | none => exact Nat.le_add_right _ _
        | some call =>
            cases hover : call.wait.isOver with
            | true => simp [hover]
            | false => simp [hover]

/-- So it is in order after every run that began without a call. -/
theorem run_accounted (hv : v.call = none) (h : run actions v = some s) : Accounted v actions (returns actions v) s := by
  refine run_preserves (P := Accounted v) (fun hs step => step.accounted hs) [] [] ⟨?_, ?_, ?_, ?_⟩ h
  · intro call hcall
    rw [hv] at hcall
    cases hcall
  · exact Nat.le_of_eq (Nat.zero_add _)
  · simp only [since, hv]
    exact Nat.le_refl _
  · exact List.forall_mem_nil _

omit [DecidableEq ι] in
/-- The calls that came back early, and the wake-ups that are there, are no more than the wake-ups there were. -/
theorem Accounted.early (hs : Accounted v past log s) :
    log.countP RoomReturn.isEarly + s.queue.handled.held ≤ v.queue.handled.held + releases past := by
  refine Nat.le_trans (Nat.add_le_add_right (List.countP_mono_left fun back hmem hearly => ?_) _) hs.woken
  rw [RoomReturn.isEarly, Bool.and_eq_true, Bool.not_eq_true'] at hearly
  rw [RoomReturn.isWoken, Bool.and_eq_true, Bool.not_eq_true']
  exact ⟨hearly.1, (hs.told back hmem).2 hearly.2⟩

/-! ## One waiter -/

/-- Whether the call stands in the line of the signal. -/
def isParked (s : Watch ι α) : Bool := s.call.any (·.wait.isParked)

/-- The signal has the one who waits here for its only waiter. -/
def Attended (s : Watch ι α) : Prop := s.queue.handled.Serves s.who s.isParked

omit [DecidableEq ι] in
theorem isParked_of_call (h : s.call = some call) : s.isParked = call.wait.isParked := by
  rw [isParked, h]
  rfl

omit [DecidableEq ι] in
theorem isParked_of_closed (h : s.isOpen = false) : s.isParked = false := by
  unfold isOpen at h
  unfold isParked
  cases hcall : s.call with
  | none => rfl
  | some call =>
      rw [hcall] at h
      cases hwait : call.wait with
      | parked due => simp [hwait, CapacityWait.isOver] at h
      | entering due | finished stopped => simp [hwait, CapacityWait.isParked]

/-- **The signal goes on to have one waiter,** who stands in the line as long as the call is parked. -/
theorem Step.attended (step : s.Step action events s') (hs : s.Attended) : s'.Attended := by
  unfold Attended at hs
  cases step with
  | begin hclosed =>
      rw [isParked_of_closed hclosed] at hs
      exact hs
  | park hcall hentering hwoken =>
      rw [isParked_of_call hcall, hentering] at hs
      have hserves := hs.wait.1
      rw [hwoken] at hserves
      exact hserves
  | comeBack hcall hstep =>
      rw [isParked_of_call hcall] at hs
      exact hstep.serves hs
  | leave hcall =>
      rw [isParked_of_call hcall] at hs
      exact CapacityWait.serves_forget hs
  | cancel hcall =>
      rw [isParked_of_call hcall] at hs
      exact hs
  | release => exact hs.notify.1
  | discount | alter | pass => exact hs

theorem run_attended (hs : s.Attended) (h : run actions s = some s') : s'.Attended :=
  run_preserves (P := fun _ _ s => s.Attended) (fun hs step => step.attended hs) [] [] hs h

omit [DecidableEq ι] in
theorem attended_ofMax {who : ι} {maxJobs : Nat} : (ofMax who maxJobs : Watch ι α).Attended := .apart

/-! ## Wake-ups in store -/

/-- After these actions nobody stands in the line, and if a handling ended a wake-up is stored. -/
structure Ready (past : List (WatchAction ι α)) (s : Watch ι α) : Prop where
  attended : s.Attended
  unparked : s.isParked = false
  stored : .release ∈ past → s.queue.handled.stored = true

/-- **What happens before the next step of a call** keeps the wake-up in store. -/
theorem Step.ready (step : s.Step action events s') (hs : Ready past s)
    (hnext : ∀ token timer, action ≠ .next token timer) : Ready (past ++ [action]) s' := by
  have hattended := step.attended hs.attended
  have hunparked := hs.unparked
  have hserves : s.queue.handled.Serves s.who false := hunparked ▸ hs.attended
  have hstored : action ≠ .release → .release ∈ past ++ [action] → s.queue.handled.stored = true := by
    intro hother hmem
    rcases List.mem_append.mp hmem with hmem | hmem
    · exact hs.stored hmem
    · exact absurd (List.mem_singleton.mp hmem).symm hother
  cases step with
  | begin _ => exact ⟨hattended, rfl, hstored (by simp)⟩
  | park | comeBack => exact absurd rfl (hnext _ _)
  | @leave call hcall =>
      have hparked : call.wait.isParked = false := (isParked_of_call hcall).symm.trans hunparked
      refine ⟨hattended, rfl, fun hmem => ?_⟩
      show (call.wait.forget s.who s.queue).handled.stored = true
      rw [CapacityWait.forget_of_unparked hparked]
      exact hstored (by simp) hmem
  | cancel hcall =>
      refine ⟨hattended, ?_, hstored (by simp)⟩
      rwa [isParked_of_call hcall] at hunparked
  | release =>
      refine ⟨hattended, hunparked, fun _ => ?_⟩
      -- nobody is in the line to be given the wake-up
      show s.queue.handled.notify.stored = true
      generalize s.queue.handled = signal at hserves
      cases hserves
      rfl
  | discount => exact ⟨hattended, hunparked, hstored (by simp)⟩
  | alter => exact ⟨hattended, hunparked, hstored (by simp)⟩
  | pass => exact ⟨hattended, hunparked, hstored (by simp)⟩

/-- So a handling that ended since the last call came back leaves a wake-up for the next. -/
theorem run_ready (hs : s.Attended) (hclosed : s.isOpen = false) (h : run actions s = some s')
    (hnext : ∀ token timer, .next token timer ∉ actions) : Ready actions s' := by
  have kept := run_preserves (P := fun past _ s => (∀ token timer, .next token timer ∉ past) → Ready past s)
    (fun {past _ _ action _ _} hP step hpast => ?_) [] []
    (fun _ => ⟨hs, isParked_of_closed hclosed, fun hmem => nomatch hmem⟩) h
  · exact kept hnext
  · refine step.ready (hP fun token timer hmem => hpast token timer (List.mem_append_left _ hmem)) ?_
    rintro token timer rfl
    exact hpast token timer (List.mem_append_right _ List.mem_cons_self)

/-- With a wake-up in store a call that is about to take its first step comes back by it. -/
theorem Ready.returns_at_once {past : List (WatchAction ι α)} (hs : Ready past s) (hopen : s.isOpen = true)
    (hmem : .release ∈ past) (token timer : Bool) :
    ∃ s', s.perform (.next token timer) = some s' ∧ s'.isOpen = false ∧ s'.now = s.now := by
  obtain ⟨call, hcall, hover⟩ := (Option.any_eq_true _ _).mp hopen
  have hunparked : call.wait.isParked = false := (isParked_of_call hcall).symm.trans hs.unparked
  cases hwait : call.wait with
  | parked due => rw [hwait] at hunparked; cases hunparked
  | finished stopped => rw [hwait] at hover; cases hover
  | entering due =>
      obtain ⟨queue, stopped, hstep⟩ :=
        CapacityWait.step_of_stored (hs.stored hmem) s.who due s.now call.cancelled token timer
      exact ⟨_, perform_next hcall (hwait ▸ hstep), rfl, rfl⟩

end Watch

end JobWorker
