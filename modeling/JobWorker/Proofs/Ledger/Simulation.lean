import JobWorker.Proofs.Ledger
import JobWorker.Proofs.Step.Dispatcher
import JobWorker.Proofs.Step.Poller

/-!
# `JobWorker.Proofs.Ledger.Simulation` — every action of a worker is a step of its ledger

The simulation goes part by part: the poller moves jobs towards the queue, the dispatcher from the queue to
a handling, and a handling through its phases. All other actions leave every job where it is. What is
proved here of single actions extends to runs (`Worker.run_ledger`), and with it every law of
`Ledger.Run`.

## Contents
- **Kinds of actions.** `Action.isPolling`, `Action.isCancelling`.
- **Handlings by number.** `Worker.handling?_split` and what it makes of `setHandling`, `dropHandling`.
- **Parts.** `poll_step`, `receive_step`, `dispatch_step`, `advance_step`.
- **Actions.** `Worker.perform_step`, and `Worker.perform_frame` for what an action leaves alone.
- **Runs.** `Worker.run_ledger`.
-/

namespace JobWorker

/-! ## Kinds of actions -/

/-- The actions of the poller. -/
def Action.isPolling : Action → Bool
  | .poll _ _ | .pollAgain | .gateway _ => true
  | _                                   => false

/-- The actions that make the token fire. -/
def Action.isCancelling : Action → Bool
  | .cancel | .close => true
  | _                => false

namespace Worker

/-! ## Handlings by number -/

/-- A handling that is found by a number has this number. -/
theorem handling?_id {w : Worker} {id : Nat} {h : Handling} (hh : w.handling? id = some h) : h.id = id := by
  simpa using List.find?_some hh

/-- A handling that was set is the one with its number. -/
theorem handling?_setHandling {w : Worker} {id : Nat} {h h' : Handling} (hh : w.handling? id = some h)
    (hid : h'.id = h.id) : (w.setHandling h').handling? id = some h' := by
  have hfound : w.handlings.find? (fun other => other.id == id) = some h := hh
  -- setting a handling changes no number, so that the same one is found
  have hkeep : ((fun other : Handling => other.id == id) ∘
      fun other => if other.id == h'.id then h' else other) = fun other => other.id == id := by
    funext other
    rw [Function.comp]
    split
    · rename_i heq
      rw [eq_of_beq heq]
    · rfl
  show (w.handlings.map fun other => if other.id == h'.id then h' else other).find? _ = some h'
  rw [List.find?_map, hkeep, hfound]
  show some (if h.id == h'.id then h' else h) = some h'
  rw [if_pos (by simpa using hid.symm)]

/-- A handling that was dropped is not there any more. -/
theorem handling?_dropHandling (w : Worker) (id : Nat) : (w.dropHandling id).handling? id = none := by
  show (w.handlings.filter _).find? _ = none
  rw [List.find?_eq_none]
  intro other hmem
  simpa using (List.mem_filter.mp hmem).2

/-- A handling that is found by its number stands between handlings with other numbers. -/
theorem handling?_split {w : Worker} {id : Nat} {h : Handling}
    (distinct : (w.handlings.map (·.id)).Nodup) (hh : w.handling? id = some h) :
    h.id = id ∧ ∃ front back, w.handlings = front ++ h :: back ∧
      (∀ other ∈ front, other.id ≠ id) ∧ ∀ other ∈ back, other.id ≠ id := by
  obtain ⟨hid, front, back, hsplit, hfront⟩ := List.find?_eq_some_iff_append.mp hh
  have hid : h.id = id := eq_of_beq hid
  refine ⟨hid, front, back, hsplit, fun other hmem => ?_, fun other hmem heq => ?_⟩
  · simpa using hfront other hmem
  · -- numbers are distinct, so that none behind it has the same
    rw [hsplit, List.map_append, List.map_cons, List.nodup_append] at distinct
    have hnot := (List.nodup_cons.mp distinct.2.1).1
    exact hnot (List.mem_map.mpr ⟨other, hmem, heq.trans hid.symm⟩)

section Split

variable {w : Worker} {h h' : Handling} {front back : List Handling}

/-- `setHandling` puts the new state of a handling in the place of the old one. -/
theorem handlings_setHandling (hw : w.handlings = front ++ h :: back)
    (hfront : ∀ other ∈ front, other.id ≠ h.id) (hback : ∀ other ∈ back, other.id ≠ h.id)
    (hid : h'.id = h.id) : (w.setHandling h').handlings = front ++ h' :: back := by
  have keep : ∀ l : List Handling, (∀ other ∈ l, other.id ≠ h.id) →
      l.map (fun other => if other.id == h.id then h' else other) = l := by
    intro l hl
    have hsame : ∀ other ∈ l, (if other.id == h.id then h' else other) = id other := by
      intro other hmem
      rw [if_neg (by simpa using hl other hmem), id]
    rw [List.map_congr_left hsame, List.map_id]
  simp only [setHandling, hw, hid, List.map_append, List.map_cons, keep front hfront, keep back hback,
    BEq.rfl, if_true]

/-- `dropHandling` takes a handling out and leaves the others. -/
theorem handlings_dropHandling (hw : w.handlings = front ++ h :: back)
    (hfront : ∀ other ∈ front, other.id ≠ h.id) (hback : ∀ other ∈ back, other.id ≠ h.id) :
    (w.dropHandling h.id).handlings = front ++ back := by
  have keep : ∀ l : List Handling, (∀ other ∈ l, other.id ≠ h.id) →
      l.filter (fun other => !(other.id == h.id)) = l := by
    intro l hl
    rw [List.filter_eq_self]
    intro other hmem
    simpa using hl other hmem
  simp only [dropHandling, hw, List.filter_append, List.filter_cons, keep front hfront, keep back hback,
    BEq.rfl, Bool.not_true, Bool.false_eq_true, if_false]

end Split

/-! ## The poller -/

variable {w w' : Worker}

/-- What leaves every job in its place is a quiet step. -/
theorem quiet_of_ledger_eq {config : WorkerConfig} (h : w'.ledger = w.ledger) :
    Ledger.Step config w.ledger [] w'.ledger := h ▸ .quiet

/-- A call with no jobs left to deliver goes on or is over. -/
theorem follow_step {call : Activation} (hasked : w.poller.asked = some w.poller.request.maxJobs.toNat)
    (hdue : w.poller.due = []) (hentering : w.poller.entering = none) :
    Ledger.Step w.config w.ledger [] { w with poller := w.poller.follow w.now call }.ledger := by
  rcases Poller.follow_cases w.now call w.poller with ⟨-, hfollow⟩ | ⟨result, -, hover⟩
  · refine quiet_of_ledger_eq ?_
    rw [hfollow]
    simp only [ledger, hasked, hdue, hentering]
    rfl
  · -- the turn is over, or an interval of rest begins: either way there is no call any more
    have heq : { w with poller := w.poller.follow w.now call }.ledger = { w.ledger with asked := none } := by
      rcases hover with ⟨turn, hfollow⟩ | ⟨due, hfollow⟩ <;>
        · rw [hfollow]
          simp only [ledger, hdue, hentering]
          rfl
    exact heq ▸ .hangUp hdue

/-- A step of the poller moves a job on by at most one place. -/
theorem poll_step {token timer : Bool} (h : w.poll token timer = some w') :
    Ledger.Step w.config w.ledger (w.events (.poll token timer) w') w'.ledger := by
  obtain ⟨⟨queue, poller⟩, hstep, rfl⟩ := Option.map_eq_some_iff.mp h
  obtain ⟨config, kind, now, cancelled, q, p, dispatcher, freeSlots, launched, handlings, closing⟩ := w
  have step : Poller.Step now cancelled q p queue poller := Poller.step_cases hstep
  cases step with
  | ask =>
      -- what is asked for is the room there is, cut to what a request can hold
      have hroom : (min (queue.load.room : Int) (maxRequested : Int)).toNat ≤
          queue.load.maxJobs - queue.load.inHand := by
        simp only [Workload.room]; omega
      exact .ask rfl hroom
  | follow => exact follow_step rfl rfl rfl
  | count => exact .count rfl rfl
  | store => exact .store rfl
  | _ => exact .quiet

/-- What comes from the gateway changes nothing of a worker but its poller. -/
theorem perform_gateway {event : CallEvent} (h : w.perform (.gateway event) = some w') :
    ∃ poller, w.poller.receive w.now event = some poller ∧ w' = { w with poller } ∧
      (event = .cancelled → w.cancelled = true) := by
  have heard : (w.poller.receive w.now event).map (fun poller => { w with poller }) = some w' →
      ∃ poller, w.poller.receive w.now event = some poller ∧ w' = { w with poller } := by
    intro h
    obtain ⟨poller, hpoller, rfl⟩ := Option.map_eq_some_iff.mp h
    exact ⟨poller, hpoller, rfl⟩
  cases event with
  | cancelled =>
      simp only [perform] at h
      split at h
      · rename_i hcancelled
        obtain ⟨poller, hpoller, rfl⟩ := heard h
        exact ⟨poller, hpoller, rfl, fun _ => hcancelled⟩
      · cases h
  | _ =>
      obtain ⟨poller, hpoller, rfl⟩ := heard h
      exact ⟨poller, hpoller, rfl, fun heq => by cases heq⟩

/-- What comes from the gateway brings jobs or leads on in the call. -/
theorem receive_step {event : CallEvent} {poller : Poller} (h : w.poller.receive w.now event = some poller) :
    Ledger.Step w.config w.ledger (w.events (.gateway event) { w with poller })
      { w with poller }.ledger := by
  obtain ⟨config, kind, now, cancelled, q, ⟨request, interval, phase⟩, dispatcher, freeSlots, launched,
    handlings, closing⟩ := w
  cases phase with
  | calling call =>
      cases call with
      | reading n =>
          cases event with
          | response batch => cases h; exact .receive rfl rfl
          | opened | ended | failed e | expired deadline | cancelled => cases h; exact follow_step rfl rfl rfl
      | opening | finished result => cases event <;> (cases h; exact follow_step rfl rfl rfl)
  | _ => cases h

/-! ## The dispatcher -/

/-- A step of the dispatcher takes a job out of the queue or launches its handling. -/
theorem dispatch_step {token : Bool} (h : w.dispatch token = some w') :
    Ledger.Step w.config w.ledger (w.events (.dispatch token) w') w'.ledger := by
  obtain ⟨⟨queue, d, effect⟩, hstep, rfl⟩ := Option.map_eq_some_iff.mp h
  obtain ⟨config, kind, now, cancelled, ⟨jobs, load, available, handled⟩, poller, dispatcher, freeSlots, launched,
    handlings, closing⟩ := w
  have step : Dispatcher.Step cancelled freeSlots ⟨jobs, load, available, handled⟩ dispatcher queue d effect :=
    Dispatcher.step_cases hstep
  cases step with
  | take hjobs =>
      -- the one look at the queue that takes a job out
      cases hjobs
      exact .take rfl rfl
  | miss hempty => cases hempty; exact .quiet
  | launch => exact .launch rfl
  | _ => exact .quiet

/-! ## Handlings -/

/-- A handling's own step is one of those it can go on by; the count goes down where it is about that. -/
theorem Handling.step_next {ι α : Type} [DecidableEq ι] {config : WorkerConfig} {kind : HandlerKind}
    {q q' : JobQueue ι α} {h h' : Handling} (hstep : h.step config kind q = some (q', h')) :
    h.Next config h' ∧ q'.jobs = q.jobs ∧ q'.load.maxJobs = q.load.maxJobs ∧ q'.load.inHand =
      if h'.phase.isPast .discounted && !h.phase.isPast .discounted then q.load.inHand - 1
      else q.load.inHand := by
  cases hp : h.phase with
  | starting =>
      simp only [Handling.step, hp] at hstep
      cases hstep
      cases kind with
      | async    => exact ⟨.call hp, rfl, rfl, rfl⟩
      | blocking => exact ⟨.begin (.inl hp), rfl, rfl, rfl⟩
  | calling =>
      simp only [Handling.step, hp] at hstep
      cases hstep
      exact ⟨.begin (.inr hp), rfl, rfl, rfl⟩
  | returned result =>
      simp only [Handling.step, hp] at hstep
      cases hstep
      cases hr : h.report? config result with
      | some request => exact ⟨.report hp hr, rfl, rfl, rfl⟩
      | none         => exact ⟨.skip hp hr, rfl, rfl, rfl⟩
  | settling =>
      simp only [Handling.step, hp] at hstep
      cases hstep
      exact ⟨.discount hp, rfl, rfl, rfl⟩
  | counted =>
      simp only [Handling.step, hp] at hstep
      cases hstep
      exact ⟨.release hp, rfl, rfl, rfl⟩
  | running | reporting request | releasing =>
      simp only [Handling.step, hp] at hstep
      cases hstep

/-- A handling that goes on, with the count of jobs in hand where its step is about that. -/
theorem advance_step {id : Nat} {h h' : Handling} {v : Worker}
    (hn : w.ledger.Numbered) (hh : w.handling? id = some h) (next : h.Next w.config h')
    (hv : v.ledger = { w.ledger with
      inHand := if h'.phase.isPast .discounted && !h.phase.isPast .discounted then w.ledger.inHand - 1
        else w.ledger.inHand }) :
    (v.setHandling h').handling? id = some h' ∧
      Ledger.Step w.config w.ledger [.advanced id h.job h.phase h'.phase] (v.setHandling h').ledger := by
  obtain ⟨rfl, front, back, hsplit, hfront, hback⟩ := handling?_split hn.distinct hh
  have hvsplit : v.handlings = front ++ h :: back := by
    rw [← hsplit]; exact congrArg Ledger.handlings hv
  have hset := handlings_setHandling hvsplit hfront hback next.id_eq
  have hledger : (v.setHandling h').ledger = { v.ledger with handlings := front ++ h' :: back } := by
    rw [← hset]; rfl
  constructor
  · refine handling?_setHandling ?_ next.id_eq
    rw [handling?, hvsplit, ← hsplit]
    exact hh
  · rw [hledger, hv]
    exact .advance hsplit next

theorem handle_step {id : Nat} (hn : w.ledger.Numbered) (h : w.handle id = some w') :
    Ledger.Step w.config w.ledger (w.events (.handle id) w') w'.ledger := by
  obtain ⟨hd, hh, h⟩ := Option.bind_eq_some_iff.mp h
  obtain ⟨⟨q, hd'⟩, hstep, h⟩ := Option.bind_eq_some_iff.mp h
  cases h
  obtain ⟨next, hjobs, hmax, hinHand⟩ := Handling.step_next hstep
  have hv : { w with queue := q }.ledger = { w.ledger with
      inHand := if hd'.phase.isPast .discounted && !hd.phase.isPast .discounted then w.ledger.inHand - 1
        else w.ledger.inHand } := by
    simp only [ledger, hjobs, hmax, hinHand]
  obtain ⟨hh', step⟩ := advance_step hn hh next hv
  simpa only [events, hh, hh'] using step

/-- A handling that goes on from outside leaves the count of jobs in hand alone. -/
theorem set_step {id : Nat} {h h' : Handling} (hn : w.ledger.Numbered) (hh : w.handling? id = some h)
    (next : h.Next w.config h') (hcount : h'.phase.isPast .discounted = false) :
    (w.setHandling h').handling? id = some h' ∧
      Ledger.Step w.config w.ledger [.advanced id h.job h.phase h'.phase] (w.setHandling h').ledger :=
  advance_step hn hh next (by simp only [hcount, Bool.false_and, Bool.false_eq_true, if_false])

theorem finish_step {id : Nat} {result : HandlerResult} (hn : w.ledger.Numbered)
    (h : w.perform (.finish id result) = some w') :
    Ledger.Step w.config w.ledger (w.events (.finish id result) w') w'.ledger := by
  obtain ⟨hd, hh, h⟩ := Option.bind_eq_some_iff.mp h
  obtain ⟨hd', hfinish, rfl⟩ := Option.map_eq_some_iff.mp h
  cases hp : hd.phase <;> simp only [Handling.finish, hp] at hfinish <;> cases hfinish
  obtain ⟨hh', step⟩ := set_step hn hh (.finish result hp) rfl
  simpa only [events, hh, hh'] using step

theorem answer_step {id : Nat} (hn : w.ledger.Numbered) (h : w.perform (.answer id) = some w') :
    Ledger.Step w.config w.ledger (w.events (.answer id) w') w'.ledger := by
  obtain ⟨hd, hh, h⟩ := Option.bind_eq_some_iff.mp h
  obtain ⟨hd', hanswered, rfl⟩ := Option.map_eq_some_iff.mp h
  cases hp : hd.phase <;> simp only [Handling.answered, hp] at hanswered <;> cases hanswered
  obtain ⟨hh', step⟩ := set_step hn hh (.answer hp) rfl
  simpa only [events, hh, hh'] using step

theorem use_step {id : Nat} (hn : w.ledger.Numbered) (h : w.perform (.use id) = some w') :
    Ledger.Step w.config w.ledger (w.events (.use id) w') w'.ledger := by
  obtain ⟨hd, hh, h⟩ := Option.bind_eq_some_iff.mp h
  obtain ⟨hd', huse, rfl⟩ := Option.map_eq_some_iff.mp h
  obtain ⟨hp, rfl⟩ := Handling.use_eq_some_iff.mp huse
  obtain ⟨rfl, front, back, hsplit, hfront, hback⟩ := handling?_split hn.distinct hh
  have hset : (w.setHandling { hd with used := true }).handlings =
      front ++ { hd with used := true } :: back := handlings_setHandling hsplit hfront hback rfl
  have hledger : (w.setHandling { hd with used := true }).ledger =
      { w.ledger with handlings := front ++ { hd with used := true } :: back } := by
    rw [← hset]; rfl
  simp only [events, hh, Option.toList_some, List.map_cons, List.map_nil]
  exact hledger ▸ .use hsplit hp

/-- A handling that is dropped is no longer among the others. -/
theorem ledger_dropHandling {id : Nat} {h : Handling} (hn : w.ledger.Numbered)
    (hh : w.handling? id = some h) : h.id = id ∧ ∃ front back, w.ledger.handlings = front ++ h :: back ∧
      (w.dropHandling id).ledger = { w.ledger with handlings := front ++ back } := by
  obtain ⟨rfl, front, back, hsplit, hfront, hback⟩ := handling?_split hn.distinct hh
  refine ⟨rfl, front, back, hsplit, ?_⟩
  rw [← handlings_dropHandling hsplit hfront hback]
  rfl

theorem retire_step {id : Nat} (hn : w.ledger.Numbered) (h : w.retire id = some w') :
    Ledger.Step w.config w.ledger (w.events (.retire id) w') w'.ledger := by
  obtain ⟨hd, hh, h⟩ := Option.bind_eq_some_iff.mp h
  cases hp : hd.phase <;> simp only [hp] at h <;> cases h
  obtain ⟨-, front, back, hsplit, hledger⟩ := ledger_dropHandling hn hh
  exact hledger ▸ .retire hsplit hp

theorem collapse_step {id : Nat} (hn : w.ledger.Numbered) (h : w.collapse id = some w') :
    Ledger.Step w.config w.ledger (w.events (.collapse id) w') w'.ledger := by
  obtain ⟨hd, hh, h⟩ := Option.bind_eq_some_iff.mp h
  cases hp : hd.phase <;> simp only [hp] at h <;> cases h
  obtain ⟨rfl, front, back, hsplit, hledger⟩ := ledger_dropHandling hn hh
  simp only [events, hh, Option.toList_some, List.map_cons, List.map_nil]
  exact hledger ▸ .collapse hsplit hp

/-! ## Actions -/

/-- **Every action is a step of the ledger.** -/
theorem perform_step {action : Action} (hn : w.ledger.Numbered) (h : w.perform action = some w') :
    Ledger.Step w.config w.ledger (w.events action w') w'.ledger := by
  cases action with
  | poll token timer => exact poll_step h
  | pollAgain =>
      obtain ⟨p, hagain, rfl⟩ := Option.map_eq_some_iff.mp h
      unfold Poller.again at hagain
      split at hagain <;> cases hagain
      rename_i hp
      refine quiet_of_ledger_eq ?_
      simp only [ledger, Poller.asked, Poller.due, Poller.entering, hp]
  | gateway event =>
      obtain ⟨poller, hreceive, rfl, -⟩ := perform_gateway h
      exact receive_step hreceive
  | dispatch token => exact dispatch_step h
  | handle id => exact handle_step hn h
  | retire id => exact retire_step hn h
  | use id => exact use_step hn h
  | finish id result => exact finish_step hn h
  | collapse id => exact collapse_step hn h
  | answer id => exact answer_step hn h
  | cancel | pass ticks => cases h; exact .quiet
  | close =>
      simp only [perform] at h
      split at h <;> (cases h; exact .quiet)
  | endLoops =>
      simp only [perform, endLoops] at h
      split at h <;> cases h
      exact .quiet
  | endHandlings timer =>
      simp only [perform, endHandlings] at h
      repeat' split at h
      all_goals cases h
      all_goals exact .quiet

/-! ## Frames -/

/-- What an action leaves alone: the settings and the kind of the handler, the poller if it is not its turn,
and the token unless it fires. -/
structure Frame (action : Action) (w w' : Worker) : Prop where
  config : w'.config = w.config
  kind : w'.kind = w.kind
  poller : action.isPolling = false → w'.poller = w.poller
  cancelled : w'.cancelled = w.cancelled ∨ action.isCancelling = true ∧ w'.cancelled = true

/-- Every action leaves alone what is not its own. -/
theorem perform_frame {action : Action} (h : w.perform action = some w') : Frame action w w' := by
  cases action with
  | poll token timer | pollAgain =>
      obtain ⟨_, -, rfl⟩ := Option.map_eq_some_iff.mp h
      exact ⟨rfl, rfl, (fun hpolling => nomatch hpolling), .inl rfl⟩
  | gateway event =>
      obtain ⟨_, -, rfl, -⟩ := perform_gateway h
      exact ⟨rfl, rfl, (fun hpolling => nomatch hpolling), .inl rfl⟩
  | dispatch token =>
      obtain ⟨⟨_, _, effect⟩, -, rfl⟩ := Option.map_eq_some_iff.mp h
      cases effect <;> exact ⟨rfl, rfl, fun _ => rfl, .inl rfl⟩
  | handle id =>
      obtain ⟨_, -, h⟩ := Option.bind_eq_some_iff.mp h
      obtain ⟨_, -, h⟩ := Option.bind_eq_some_iff.mp h
      cases h
      exact ⟨rfl, rfl, fun _ => rfl, .inl rfl⟩
  | retire id | collapse id =>
      obtain ⟨hd, -, h⟩ := Option.bind_eq_some_iff.mp h
      cases hp : hd.phase <;> simp only [hp] at h <;> cases h
      exact ⟨rfl, rfl, fun _ => rfl, .inl rfl⟩
  | use id | finish id result | answer id =>
      obtain ⟨_, -, h⟩ := Option.bind_eq_some_iff.mp h
      obtain ⟨_, -, rfl⟩ := Option.map_eq_some_iff.mp h
      exact ⟨rfl, rfl, fun _ => rfl, .inl rfl⟩
  | cancel =>
      cases h
      exact ⟨rfl, rfl, fun _ => rfl, .inr ⟨rfl, rfl⟩⟩
  | pass ticks =>
      cases h
      exact ⟨rfl, rfl, fun _ => rfl, .inl rfl⟩
  | close =>
      simp only [perform] at h
      split at h
      · cases h
        exact ⟨rfl, rfl, fun _ => rfl, .inl rfl⟩
      · cases h
        exact ⟨rfl, rfl, fun _ => rfl, .inr ⟨rfl, rfl⟩⟩
  | endLoops =>
      simp only [perform, endLoops] at h
      split at h <;> cases h
      exact ⟨rfl, rfl, fun _ => rfl, .inl rfl⟩
  | endHandlings timer =>
      simp only [perform, endHandlings] at h
      repeat' split at h
      all_goals cases h
      all_goals exact ⟨rfl, rfl, fun _ => rfl, .inl rfl⟩

/-! ## Runs -/

/-- **Every run is a run of the ledger,** with the history of the one as the events of the other. -/
theorem run_ledger {actions : List Action} (hn : w.ledger.Numbered) (h : run actions w = some w') :
    Ledger.Run w.config w.ledger (history actions w) w'.ledger := by
  induction actions generalizing w with
  | nil => cases h; exact .nil
  | cons action actions ih =>
      obtain ⟨v, hv, h⟩ := Option.bind_eq_some_iff.mp h
      have step := perform_step hn hv
      rw [history, hv]
      refine .cons step ?_
      rw [← (perform_frame hv).config]
      exact ih (step.numbered hn) h

end Worker
end JobWorker
