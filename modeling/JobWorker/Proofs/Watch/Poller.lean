import JobWorker.Poller.Run
import JobWorker.Proofs.Step.Poller
import JobWorker.Proofs.Watch.Step

/-!
# `JobWorker.Proofs.Watch.Poller` — the waits of a poller are calls in a watch

A poller waits for room in its idle turns, in one after the other, always for the same interval and under the same token.
So it does what one does who waits for room again and again: every run of a poller is followed by a run of a watch, step
by step, in which the same handlings raise the signal. A call that comes back without a word of the token is the end of
an idle turn.

## Contents
- **Turns.** `PollerRun.events`, `PollerRun.turns`, `PollerRun.releases`, `PollerRun.run_preserves`.
- **Steps of a poller.** `Poller.wait?`, `Poller.Apart`, `Poller.step_waits`, `Poller.receive_parted`.
- **Following.** `PollerRun.Follows`, `PollerRun.Shadows`, `PollerRun.Follows.perform`.
- **Runs.** `PollerRun.watch`, `PollerRun.Watched`, `PollerRun.run_watched`.
-/

namespace JobWorker

/-! ## Turns -/

/-- Whether an action raises the signal of a handling that ended. -/
def PollerAction.isRelease : PollerAction → Bool
  | .release => true
  | _        => false

namespace PollerRun

/-- The turn that ended by an action that leads from `before` to `after`, if one did. -/
def events (before after : PollerRun) : List Turn :=
  match before.poller.phase, after.poller.phase with
  | .ended _, _    => []
  | _, .ended turn => [turn]
  | _, _           => []

/-- The turns that ended along a run, in order. -/
def turns : List PollerAction → PollerRun → List Turn
  | [], _                => []
  | action :: actions, r =>
    match r.perform action with
    | some r' => events r r' ++ turns actions r'
    | none    => []

/-- How many handlings raised the signal. -/
def releases (actions : List PollerAction) : Nat := actions.countP (·.isRelease)

variable {r r' : PollerRun} {action : PollerAction} {actions past : List PollerAction}

theorem releases_concat : releases (past ++ [action]) = releases past + action.isRelease.toNat := by
  rw [releases, List.countP_append, List.countP_singleton]
  cases action.isRelease <;> rfl

/-- What each action keeps, with the actions and the turns so far as part of the state, a run keeps. -/
theorem run_preserves {P : List PollerAction → List Turn → PollerRun → Prop}
    (step : ∀ {past log r action r'}, P past log r → r.perform action = some r' →
      P (past ++ [action]) (log ++ events r r') r')
    (past : List PollerAction) (log : List Turn) (hP : P past log r) (h : run actions r = some r') :
    P (past ++ actions) (log ++ turns actions r) r' := by
  induction actions generalizing past log r with
  | nil =>
      cases h
      rw [turns, List.append_nil, List.append_nil]
      exact hP
  | cons action actions ih =>
      obtain ⟨v, hv, h⟩ := Option.bind_eq_some_iff.mp h
      have hrest := ih _ _ (step hP hv) h
      rw [List.append_assoc, List.append_assoc] at hrest
      rw [turns, hv]
      exact hrest

/-- Where the poller stays as it is, no turn ends. -/
theorem events_eq_nil (h : r'.poller = r.poller) : events r r' = [] := by
  unfold events
  rw [h]
  cases r.poller.phase <;> rfl

end PollerRun

/-! ## Steps of a poller -/

namespace Poller

variable {p p' : Poller} {q q' : JobQueue Party Job} {now : Time} {cancelled token timer : Bool}

/-- The wait for room in which a poller is. -/
def wait? (p : Poller) : Option CapacityWait :=
  match p.phase with
  | .waiting wait => some wait
  | _             => none

theorem phase_of_wait? {wait : CapacityWait} (h : p.wait? = some wait) : p.phase = .waiting wait := by
  unfold wait? at h
  split at h
  · rename_i hphase
    cases h
    exact hphase
  · cases h

/-- A poller that is in no wait is in none that is not over. -/
theorem over_of_none (h : p.wait? = none) : ∀ wait, p.wait? = some wait → wait.isOver = true := by
  intro wait hwait
  rw [h] at hwait
  cases hwait

/-- A poller is in a wait that is not over, or in none. -/
theorem wait_cases (p : Poller) : (∀ wait, p.wait? = some wait → wait.isOver = true) ∨
    ∃ wait, p.wait? = some wait ∧ wait.isOver = false := by
  cases hwait : p.wait? with
  | none => exact .inl fun wait hsome => nomatch hsome
  | some wait =>
      cases hover : wait.isOver with
      | true => exact .inl fun other hother => Option.some.inj hother ▸ hover
      | false => exact .inr ⟨wait, rfl, hover⟩

/-- A poller that is in no wait and has not just ended an idle turn. -/
structure Apart (p : Poller) : Prop where
  wait : p.wait? = none
  turn : p.phase ≠ .ended .idle

/-- A call that goes on or is over leads to neither. -/
theorem follow_parted (now : Time) (call : Activation) (p : Poller) : (p.follow now call).Apart := by
  cases call with
  | opening | reading n => exact ⟨rfl, by simp [follow]⟩
  | finished result =>
      show Apart { p with phase := p.conclude now result }
      rcases conclude_cases now p result with ⟨hconclude, -⟩ | ⟨hconclude, -⟩ | ⟨e, hconclude, -⟩ <;>
        (rw [hconclude]; exact ⟨rfl, by simp⟩)

/-- **A step of a poller** goes on with its wait, or ends the turn after it, or begins one, or has nothing to do with
waiting for room. -/
theorem step_waits (h : p.step now cancelled token timer q = some (q', p')) :
    (∃ wait wait', p.wait? = some wait ∧ wait.step .poller now cancelled token timer q = some (q', wait') ∧
      p' = { p with phase := .waiting wait' }) ∨
    (∃ stopped, p.wait? = some (.finished stopped) ∧ q' = q ∧
      p' = { p with phase := .ended (if stopped then .stopped else .idle) }) ∨
    (p.phase = .measuring ∧ q' = q ∧ p' = { p with phase := .waiting (.begin now p.interval) }) ∨
    (p.wait? = none ∧ p'.Apart ∧ q'.handled = q.handled ∧ p'.interval = p.interval) := by
  have step := step_cases h
  obtain ⟨request, interval, phase⟩ := p
  cases phase with
  | waiting wait =>
      cases wait with
      | finished stopped =>
          cases step
          exact .inr (.inl ⟨stopped, rfl, rfl, rfl⟩)
      | entering due | parked due =>
          obtain ⟨⟨queue, wait'⟩, hwait, heq⟩ := Option.map_eq_some_iff.mp h
          cases heq
          exact .inl ⟨_, wait', rfl, hwait, rfl⟩
  | measuring =>
      cases step with
      | wait _ => exact .inr (.inr (.inl ⟨rfl, rfl, rfl⟩))
      | refill _ => exact .inr (.inr (.inr ⟨rfl, ⟨rfl, by simp⟩, rfl, rfl⟩))
  | delivering call jobs =>
      cases step with
      | follow => exact .inr (.inr (.inr ⟨rfl, follow_parted _ _ _, rfl, rfl⟩))
      | count => exact .inr (.inr (.inr ⟨rfl, ⟨rfl, by simp⟩, rfl, rfl⟩))
  | checking | sizing | calling call | counted call job jobs | stored call jobs | resting due | ended turn =>
      cases step <;> exact .inr (.inr (.inr ⟨rfl, ⟨rfl, by simp⟩, rfl, rfl⟩))

/-- What comes from the gateway has nothing to do with waiting for room. -/
theorem receive_parted {event : CallEvent} (h : p.receive now event = some p') :
    p.wait? = none ∧ p'.Apart ∧ p'.interval = p.interval := by
  obtain ⟨request, interval, phase⟩ := p
  cases phase with
  | calling call =>
      simp only [receive] at h
      split at h
      · cases h
        exact ⟨rfl, ⟨rfl, by simp⟩, rfl⟩
      · cases h
        exact ⟨rfl, follow_parted _ _ _, rfl⟩
  | _ => cases h

end Poller

namespace PollerRun

variable {r r' : PollerRun} {action : PollerAction}

/-- How many idle turns are about to end: one, if the wait for room is over and the token has not ended it. -/
def idleAhead (r : PollerRun) : Nat := if r.poller.wait? = some (.finished false) then 1 else 0

theorem idleAhead_of_none (h : r.poller.wait? = none) : r.idleAhead = 0 := by
  rw [idleAhead, h]
  rfl

/-- Where the poller comes apart from waiting, no idle turn ends. -/
theorem count_events_of_apart (h : r'.poller.Apart) : (events r r').count .idle = 0 := by
  unfold events
  split
  · rfl
  · rename_i turn hturn _
    refine List.count_eq_zero.mpr fun hmem => h.turn ?_
    rw [hturn, List.mem_singleton.mp hmem]
  · rfl

/-! ## Following -/

/-- A watch follows a poller: it has the same queue and clock, and an open call for the wait that is not over. -/
structure Follows (interval : Duration) (s : Watch Party Job) (r : PollerRun) : Prop where
  who : s.who = .poller
  queue : s.queue = r.queue
  now : s.now = r.now
  pace : r.poller.interval = interval
  waits : ∀ wait, r.poller.wait? = some wait → wait.isOver = false →
    ∃ begun, s.call = some ⟨interval, begun, r.cancelled, wait⟩
  rests : (∀ wait, r.poller.wait? = some wait → wait.isOver = true) → s.isOpen = false

variable {interval : Duration} {s s' : Watch Party Job}

theorem Follows.closed (hs : Follows interval s r) (h : r.poller.wait? = none) : s.isOpen = false :=
  hs.rests (Poller.over_of_none h)

/-- What happens around the poller happens around the call. -/
theorem Follows.around (hs : Follows interval s r) (hwho : s'.who = s.who) (hcall : s'.call = s.call)
    (hpoller : r'.poller = r.poller) (htoken : r'.cancelled = r.cancelled) (hqueue : s'.queue = r'.queue)
    (hnow : s'.now = r'.now) : Follows interval s' r' := by
  refine ⟨hwho.trans hs.who, hqueue, hnow, hpoller ▸ hs.pace, ?_, ?_⟩
  · rw [hpoller, hcall, htoken]
    exact hs.waits
  · rw [hpoller, Watch.isOpen, hcall]
    exact hs.rests

/-- A poller that is in no wait is followed by a watch without an open call. -/
theorem Follows.apart (hs : Follows interval s r) (hwho : s'.who = s.who) (hcall : s'.call = s.call)
    (hbefore : ∀ wait, r.poller.wait? = some wait → wait.isOver = true) (hafter : r'.poller.wait? = none)
    (hinterval : r'.poller.interval = r.poller.interval) (hqueue : s'.queue = r'.queue) (hnow : s'.now = r'.now) :
    Follows interval s' r' := by
  refine ⟨hwho.trans hs.who, hqueue, hnow, hinterval.trans hs.pace, fun wait hwait => ?_, fun _ => ?_⟩
  · rw [hafter] at hwait
    cases hwait
  · rw [Watch.isOpen, hcall]
    exact hs.rests hbefore

/-- An action of a poller has a run of the watch for its shadow: it raises the signal as often, and the calls that come
back in it without a word of the token are the idle turns that end, or are about to. -/
def Shadows (interval : Duration) (s : Watch Party Job) (r : PollerRun) (action : PollerAction) (r' : PollerRun) : Prop :=
  ∃ calls s', Watch.run calls s = some s' ∧ Follows interval s' r' ∧
    Watch.releases calls = action.isRelease.toNat ∧
    (events r r').count .idle + r'.idleAhead = r.idleAhead + (Watch.returns calls s).countP (!·.cancelled) ∧
    ∀ back ∈ Watch.returns calls s, back.interval = interval

/-- The shadow can be nothing at all. -/
theorem Shadows.still (hfollows : Follows interval s r') (hrelease : action.isRelease = false)
    (htally : (events r r').count .idle + r'.idleAhead = r.idleAhead) : Shadows interval s r action r' :=
  ⟨[], s, rfl, hfollows, by rw [hrelease]; rfl, htally, List.forall_mem_nil _⟩

/-- It can be one action by which no call comes back. -/
theorem Shadows.around (call : WatchAction Party Job) (s' : Watch Party Job) (hperform : s.perform call = some s')
    (hnext : ∀ token timer, call ≠ .next token timer) (hfollows : Follows interval s' r')
    (hrelease : call.isRelease = action.isRelease) (htally : (events r r').count .idle + r'.idleAhead = r.idleAhead) :
    Shadows interval s r action r' := by
  have hnone : Watch.returns [call] s = [] := by
    rw [Watch.returns, hperform]
    cases call with
    | next token timer => exact absurd rfl (hnext token timer)
    | _ => rfl
  refine ⟨[call], s', ?_, hfollows, ?_, ?_, ?_⟩
  · rw [Watch.run, hperform]
    rfl
  · rw [← hrelease]
    exact List.countP_singleton.trans (by cases call.isRelease <;> rfl)
  · rw [hnone]
    exact htally
  · rw [hnone]
    exact List.forall_mem_nil _

/-- Nothing ends where only something around the poller changes. -/
theorem tally_around (hpoller : r'.poller = r.poller) : (events r r').count .idle + r'.idleAhead = r.idleAhead := by
  rw [events_eq_nil hpoller, idleAhead, hpoller]
  exact Nat.zero_add _

/-- Nor where the poller comes apart from waiting. -/
theorem tally_apart (hbefore : r.poller.wait? = none) (hafter : r'.poller.Apart) :
    (events r r').count .idle + r'.idleAhead = r.idleAhead := by
  rw [count_events_of_apart hafter, idleAhead_of_none hbefore, idleAhead_of_none hafter.wait]

/-- What the wait does in a step, the call does in one. -/
theorem Follows.next {wait wait' : CapacityWait} {queue : JobQueue Party Job} {token timer : Bool}
    (hs : Follows interval s r) (hwait : r.poller.wait? = some wait)
    (hstep : wait.step .poller r.now r.cancelled token timer r.queue = some (queue, wait')) :
    Shadows interval s r (.step token timer)
      { r with queue, poller := { r.poller with phase := .waiting wait' } } := by
  obtain ⟨due, hdue⟩ := (CapacityWait.step_cases hstep).exists_due
  have hopen : wait.isOver = false := CapacityWait.isOver_of_due hdue
  obtain ⟨begun, hcall⟩ := hs.waits wait hwait hopen
  rw [← hs.who, ← hs.now, ← hs.queue] at hstep
  have hperform := Watch.perform_next hcall hstep
  have hreturns : Watch.returns [.next token timer] s =
      wait'.result?.toList.map (RoomCall.comeBack ⟨interval, begun, r.cancelled, wait⟩ s.now) := by
    simp only [Watch.returns, hperform, Watch.events, hcall, List.append_nil]
  refine ⟨[.next token timer], { s with queue, call := some ⟨interval, begun, r.cancelled, wait'⟩ }, ?_,
    ⟨hs.who, rfl, hs.now, hs.pace, ?_, fun hover => ?_⟩, rfl, ?_, ?_⟩
  · rw [Watch.run, hperform]
    rfl
  · rintro _ ⟨⟩ _
    exact ⟨begun, rfl⟩
  · show (!wait'.isOver) = false
    rw [hover wait' rfl]
    rfl
  · have hbefore : r.poller.phase = .waiting wait := Poller.phase_of_wait? hwait
    have hahead : r.idleAhead = 0 := by
      rw [idleAhead, hwait, if_neg]
      rintro ⟨⟩
      cases hopen
    rw [hreturns, hahead, events, hbefore]
    show 0 + (if some wait' = some (.finished false) then 1 else 0) = _
    cases wait' with
    | finished stopped => cases stopped <;> rfl
    | entering due | parked due => rfl
  · rw [hreturns]
    intro back hmem
    obtain ⟨stopped, -, rfl⟩ := List.mem_map.mp hmem
    rfl

/-- **Whatever a poller does, the watch that follows it does in its way.** -/
theorem Follows.perform (hs : Follows interval s r) (h : r.perform action = some r') :
    Shadows interval s r action r' := by
  cases action with
  | turn =>
      simp only [PollerRun.perform, turn] at h
      split at h
      · rename_i ended hphase
        cases h
        have hwait : r.poller.wait? = none := by simp only [Poller.wait?, hphase]
        exact .still (hs.apart rfl rfl (Poller.over_of_none hwait) rfl rfl hs.queue hs.now) rfl
          (tally_apart hwait ⟨rfl, by simp⟩)
      · cases h
  | step token timer =>
      obtain ⟨⟨queue, poller⟩, hstep, rfl⟩ := Option.map_eq_some_iff.mp h
      rcases Poller.step_waits hstep with ⟨wait, wait', hwait, hstep', rfl⟩ | ⟨stopped, hwait, rfl, rfl⟩ |
        ⟨hmeasuring, rfl, rfl⟩ | ⟨hwait, hapart, hhandled, hpace⟩
      · exact hs.next hwait hstep'
      · refine .still (hs.apart rfl rfl ?_ rfl rfl hs.queue hs.now) rfl ?_
        · rintro wait hsome
          cases hwait.symm.trans hsome
          rfl
        · have hbefore := Poller.phase_of_wait? hwait
          rw [events, hbefore, idleAhead, idleAhead, hwait]
          cases stopped <;> rfl
      · have hwait : r.poller.wait? = none := by simp only [Poller.wait?, hmeasuring]
        have hclosed := hs.closed hwait
        refine .around (.begin interval r.cancelled) { s with call := some (.begin s.now interval r.cancelled) }
          ?_ (by simp) ⟨hs.who, hs.queue, hs.now, hs.pace, ?_, ?_⟩ rfl ?_
        · simp only [Watch.perform, hclosed, Bool.false_eq_true, if_false]
        · rintro _ ⟨⟩ _
          exact ⟨s.now, by simp only [RoomCall.begin, hs.now, hs.pace]⟩
        · intro hover
          cases hover _ rfl
        · rw [events, hmeasuring, idleAhead_of_none hwait]
          rfl
      · refine .around (.alter queue) _ rfl (by simp) ?_ rfl (tally_apart hwait hapart)
        refine hs.apart rfl rfl (Poller.over_of_none hwait) hapart.wait hpace ?_ hs.now
        show { queue with handled := s.queue.handled } = queue
        rw [hs.queue, ← hhandled]
  | hear event =>
      obtain ⟨poller, hreceive, rfl⟩ := Option.map_eq_some_iff.mp h
      obtain ⟨hwait, hapart, hpace⟩ := Poller.receive_parted hreceive
      exact .still (hs.apart rfl rfl (Poller.over_of_none hwait) hapart.wait hpace hs.queue hs.now) rfl
        (tally_apart hwait hapart)
  | cancel =>
      cases h
      rcases r.poller.wait_cases with hover | ⟨wait, hwait, hopen⟩
      · refine .still ⟨hs.who, hs.queue, hs.now, hs.pace, fun wait hwait hopen => ?_, fun _ => hs.rests hover⟩ rfl
          (tally_around rfl)
        cases (hover wait hwait).symm.trans hopen
      · obtain ⟨begun, hcall⟩ := hs.waits wait hwait hopen
        refine .around .cancel { s with call := some ⟨interval, begun, true, wait⟩ } ?_ (by simp)
          ⟨hs.who, hs.queue, hs.now, hs.pace, ?_, ?_⟩ rfl (tally_around rfl)
        · simp only [Watch.perform, hcall, Option.map_some]
        · intro wait' hwait' _
          cases hwait.symm.trans hwait'
          exact ⟨begun, rfl⟩
        · intro hover
          cases (hover wait hwait).symm.trans hopen
  | discount =>
      cases h
      refine .around .discount _ rfl (by simp) (hs.around rfl rfl rfl rfl ?_ hs.now) rfl (tally_around rfl)
      exact congrArg JobQueue.discount hs.queue
  | release =>
      cases h
      refine .around .release _ rfl (by simp) (hs.around rfl rfl rfl rfl ?_ hs.now) rfl (tally_around rfl)
      exact congrArg JobQueue.release hs.queue
  | alter queue =>
      cases h
      refine .around (.alter queue) _ rfl (by simp) (hs.around rfl rfl rfl rfl ?_ hs.now) rfl (tally_around rfl)
      show { queue with handled := s.queue.handled } = { queue with handled := r.queue.handled }
      rw [hs.queue]
  | pass ticks =>
      cases h
      refine .around (.pass ticks) _ rfl (by simp) (hs.around rfl rfl rfl rfl hs.queue ?_) rfl (tally_around rfl)
      exact congrArg (· + ticks) hs.now

/-! ## Runs -/

/-- The watch that begins beside a poller, without a call. -/
def watch (r : PollerRun) : Watch Party Job := { who := .poller, queue := r.queue, now := r.now }

/-- What a poller did since `v` has been followed by a watch that began beside it. -/
def Watched (v : PollerRun) (past : List PollerAction) (log : List Turn) (r : PollerRun) : Prop :=
  ∃ calls s, Watch.run calls v.watch = some s ∧ Follows v.poller.interval s r ∧ Watch.releases calls = releases past ∧
    log.count .idle + r.idleAhead = (Watch.returns calls v.watch).countP (!·.cancelled) ∧
    ∀ back ∈ Watch.returns calls v.watch, back.interval = v.poller.interval

/-- **Every run of a poller is followed by a run of a watch,** if it began with the poller in no wait. -/
theorem run_watched {v : PollerRun} {actions : List PollerAction} (hv : v.poller.wait? = none)
    (h : run actions v = some r) : Watched v actions (turns actions v) r := by
  refine run_preserves (P := Watched v) (fun {past log r action r'} hP hr => ?_) [] [] ?_ h
  · obtain ⟨calls, s, hrun, hfollows, hreleases, htally, hinterval⟩ := hP
    obtain ⟨calls', s', hrun', hfollows', hreleases', htally', hinterval'⟩ := hfollows.perform hr
    refine ⟨calls ++ calls', s', (Watch.run_append hrun).trans hrun', hfollows', ?_, ?_, ?_⟩
    · rw [Watch.releases_append, releases_concat, hreleases, hreleases']
    · rw [Watch.returns_append hrun, List.countP_append, List.count_append, ← htally]
      omega
    · rw [Watch.returns_append hrun]
      exact List.forall_mem_append.mpr ⟨hinterval, hinterval'⟩
  · refine ⟨[], v.watch, rfl, ⟨rfl, rfl, rfl, rfl, fun wait hwait => ?_, fun _ => rfl⟩, rfl, ?_,
      List.forall_mem_nil _⟩
    · rw [hv] at hwait
      cases hwait
    · rw [idleAhead_of_none hv]
      rfl

end PollerRun

end JobWorker
