import JobWorker.Proofs.Crowd.Poll
import JobWorker.Proofs.Places

/-!
# `JobWorker.Proofs.Crowd.Step` — who waits in a crowd

Those who wait at the signal of a queue, woken or not, are the consumers that are parked, each of them once; and no
wake-up is stored while anybody waits. Every action in a crowd keeps this.

## Contents
- **Signals.** `Signal.Holds` and what each operation makes of it.
- **Polls.** `Consumer.Polled.holds`, `Consumer.Polled.settled`.
- **Crowds.** `Crowd.Parked`, `Crowd.Orderly`, `Crowd.Step`, `Crowd.perform_cases`, `Crowd.Step.orderly`.
-/

namespace JobWorker

/-! ## Signals -/

namespace Signal

variable {ι : Type} [DecidableEq ι] {here here' : ι → Prop} {s : Signal ι} {w : ι}

/-- A signal at which these waiters are, woken or not, each of them once, and that stores no wake-up while one of them
waits. -/
structure Holds (here : ι → Prop) (s : Signal ι) : Prop where
  mem_iff : ∀ w, here w ↔ w ∈ s.waiting ++ s.woken
  nodup : (s.waiting ++ s.woken).Nodup
  stored : s.stored = true → s.waiting = []

omit [DecidableEq ι] in
theorem Holds.congr (hs : s.Holds here) (h : ∀ w, here' w ↔ here w) : s.Holds here' :=
  ⟨fun w => (h w).trans (hs.mem_iff w), hs.nodup, hs.stored⟩

omit [DecidableEq ι] in
/-- A wake-up leaves everybody where they are. -/
theorem Holds.notify (hs : s.Holds here) : s.notify.Holds here := by
  obtain ⟨hmem, hnodup, hstored⟩ := hs
  unfold Signal.notify
  split
  · rename_i hnone
    exact ⟨hmem, hnodup, fun _ => hnone⟩
  · rename_i first others hwaiting
    have hperm : (others ++ (s.woken ++ [first])).Perm (s.waiting ++ s.woken) := by
      rw [hwaiting, ← List.append_assoc, List.cons_append]
      exact List.perm_append_singleton first _
    refine ⟨fun w => (hmem w).trans hperm.mem_iff.symm, hperm.nodup_iff.mpr hnodup, fun h => ?_⟩
    rw [hstored h] at hwaiting
    cases hwaiting

omit [DecidableEq ι] in
/-- One that comes to wait is there. -/
theorem Holds.join (hs : s.Holds here) (hw : ¬here w) : (s.join w).Holds fun i => i = w ∨ here i := by
  obtain ⟨hmem, hnodup, hstored⟩ := hs
  have hperm : (s.waiting ++ [w] ++ s.woken).Perm (w :: (s.waiting ++ s.woken)) := by
    rw [List.append_assoc]
    exact List.perm_middle
  refine ⟨fun i => ?_, hperm.nodup_iff.mpr ?_, nofun⟩
  · rw [hmem i]
    exact List.mem_cons.symm.trans hperm.mem_iff.symm
  · exact List.nodup_cons.mpr ⟨fun h => hw ((hmem w).mpr h), hnodup⟩

omit [DecidableEq ι] in
/-- One that is no longer there is gone. -/
theorem Holds.without {s' : Signal ι} (hs : s.Holds here)
    (hperm : (s.waiting ++ s.woken).Perm (w :: (s'.waiting ++ s'.woken))) (hstored : s'.stored = true → s'.waiting = []) :
    s'.Holds fun i => i ≠ w ∧ here i := by
  obtain ⟨hout, hrest⟩ := List.nodup_cons.mp (hperm.nodup_iff.mp hs.nodup)
  refine ⟨fun i => ?_, hrest, hstored⟩
  rw [hs.mem_iff i, hperm.mem_iff, List.mem_cons]
  constructor
  · rintro ⟨hne, h⟩
    exact h.resolve_left hne
  · intro h
    refine ⟨?_, .inr h⟩
    rintro rfl
    exact hout h

/-- One that notices its wake-up goes. -/
theorem Holds.taken (hs : s.Holds here) (hw : w ∈ s.woken) : (s.taken w).Holds fun i => i ≠ w ∧ here i := by
  apply hs.without
  · exact ((List.perm_cons_erase hw).append_left s.waiting).trans List.perm_middle
  · exact hs.stored

/-- One that leaves goes; where it was woken, the wake-up goes on. -/
theorem Holds.leave (hs : s.Holds here) (hw : here w) : (s.leave w).Holds fun i => i ≠ w ∧ here i := by
  unfold Signal.leave
  split
  · rename_i hwoken
    exact (hs.taken hwoken).notify
  · rename_i hwoken
    have hwaiting : w ∈ s.waiting := (List.mem_append.mp ((hs.mem_iff w).mp hw)).resolve_right hwoken
    apply hs.without
    · exact (List.perm_cons_erase hwaiting).append_right s.woken
    · intro h
      show s.waiting.erase w = []
      rw [hs.stored h]
      rfl

end Signal

/-! ## Polls -/

namespace Consumer

variable {ι α : Type} [DecidableEq ι] {id : ι} {cancelled token : Bool} {q q' : JobQueue ι α} {c c' : Consumer α}
variable {here : ι → Prop}

omit [DecidableEq ι] in
/-- One that was not there is there after a round if and only if it waits. -/
theorem Round.holds (h : Round id cancelled q q' c') (hq : q.available.Holds here) (hid : ¬here id) :
    q'.available.Holds fun i => (i = id ∧ c' = .parked) ∨ here i := by
  cases h with
  | quit _ => exact hq.congr fun i => by simp
  | take _ _ => exact hq.congr fun i => by simp
  | park _ _ => exact (hq.join hid).congr fun i => by simp

/-- One that is polled is there afterwards if and only if it waits then. -/
theorem Polled.holds (h : Polled id cancelled token q c q' c') (hq : q.available.Holds here)
    (hc : here id ↔ c = .parked) :
    q'.available.Holds fun i => (i = id ∧ c' = .parked) ∨ (i ≠ id ∧ here i) := by
  have hsame : ¬here id → ∀ i, i ≠ id ∧ here i ↔ here i := by
    intro hid i
    refine ⟨And.right, fun hi => ⟨?_, hi⟩⟩
    rintro rfl
    exact hid hi
  cases h with
  | begin hround =>
      have hid : ¬here id := fun hi => nomatch hc.mp hi
      exact (hround.holds hq hid).congr fun i => or_congr Iff.rfl (hsame hid i)
  | notice hwoken _ hround =>
      -- it goes before the round begins, and may come back in it
      exact hround.holds (hq.taken hwoken) fun hi => hi.1 rfl
  | leave _ _ => exact (hq.leave (hc.mpr rfl)).congr fun i => by simp
  | wait _ _ =>
      refine hq.congr fun i => ?_
      by_cases hi : i = id
      · subst hi
        simp [hc]
      · simp [hi]
  | rest =>
      have hid : ¬here id := fun hi => nomatch hc.mp hi
      exact hq.congr fun i => (or_iff_right (by simp)).trans (hsame hid i)

theorem Polled.settled (h : Polled id cancelled token q c q' c') : c'.Settled := by
  cases h with
  | begin hround | notice _ _ hround => exact hround.settled
  | leave _ _ => exact .inr (.inr ⟨none, rfl⟩)
  | wait _ _ => exact .inr (.inl rfl)
  | @rest job => exact .inr (.inr ⟨job, rfl⟩)

end Consumer

/-! ## Crowds -/

namespace Crowd

variable {α : Type} {s s' : Crowd α} {action : CrowdAction α} {id i : Nat} {m m' : Member α} {place : Option (Member α)}

theorem member?_eq_some_iff : s.member? id = some m ↔ s.members[id]? = some (some m) := by
  rw [member?, Option.join_eq_some_iff]

theorem lt_of_member? (h : s.member? id = some m) : id < s.members.length :=
  (List.getElem?_eq_some_iff.mp (member?_eq_some_iff.mp h)).1

/-- The consumer that was set has its place. -/
theorem member?_setMember_self (h : id < s.members.length) : (s.setMember id place).member? id = place := by
  rw [member?, setMember, List.getElem?_set_self h]
  rfl

/-- The others keep theirs. -/
theorem member?_setMember_of_ne (h : i ≠ id) : (s.setMember id place).member? i = s.member? i := by
  rw [member?, setMember, List.getElem?_set_ne (Ne.symm h)]
  rfl

/-- After a consumer has come, it has the last place, and the others keep theirs. -/
theorem member?_join_cases {cancelled : Bool}
    (h : ({ s with members := s.members ++ [some { cancelled }] } : Crowd α).member? i = some m) :
    m = { cancelled } ∨ s.member? i = some m := by
  rcases getElem?_concat_cases (member?_eq_some_iff.mp h) with ⟨-, hnew⟩ | ⟨-, hold⟩
  · cases hnew
    exact .inl rfl
  · exact .inr (member?_eq_some_iff.mpr hold)

/-- Whether a consumer waits. -/
def Parked (s : Crowd α) (id : Nat) : Prop := ∃ m, s.member? id = some m ∧ m.consumer = .parked

/-- What holds in a crowd between any two actions. -/
structure Orderly (s : Crowd α) : Prop where
  settled : ∀ id m, s.member? id = some m → m.consumer.Settled
  signal : s.queue.available.Holds s.Parked

/-- What an action makes of a crowd. -/
inductive Step (s : Crowd α) : CrowdAction α → Crowd α → Prop where
  | push {job} : Step s (.push job) { s with queue := s.queue.push job }
  | finish : Step s .finish { s with queue := s.queue.finishJob }
  | join {cancelled} : Step s (.join cancelled) { s with members := s.members ++ [some { cancelled }] }
  | cancel {id : Nat} {m : Member α} : s.member? id = some m →
      Step s (.cancel id) (s.setMember id (some { m with cancelled := true }))
  | poll {id token m queue consumer} : s.member? id = some m →
      m.consumer.poll id m.cancelled token s.queue = (queue, consumer) →
      Step s (.poll id token) ({ s with queue }.setMember id (some { m with consumer }))
  | leave {id : Nat} {m : Member α} : s.member? id = some m →
      Step s (.leave id) ({ s with queue := m.consumer.forget id s.queue }.setMember id none)

/-- **Every action makes one of these steps.** -/
theorem perform_cases (h : s.perform action = some s') : s.Step action s' := by
  cases action with
  | push job =>
      cases h
      exact .push
  | finish =>
      cases h
      exact .finish
  | join cancelled =>
      cases h
      exact .join
  | cancel id =>
      obtain ⟨m, hm, h⟩ := Option.map_eq_some_iff.mp h
      cases h
      exact .cancel hm
  | poll id token =>
      obtain ⟨m, hm, h⟩ := Option.bind_eq_some_iff.mp h
      cases h
      exact .poll hm rfl
  | leave id =>
      obtain ⟨m, hm, h⟩ := Option.map_eq_some_iff.mp h
      cases h
      exact .leave hm

/-- Who waits after a place was replaced: the one there, if it waits, and the others as before. -/
theorem parked_setMember_iff (h : id < s.members.length) :
    (s.setMember id place).Parked i ↔
      (i = id ∧ ∃ m, place = some m ∧ m.consumer = .parked) ∨ (i ≠ id ∧ s.Parked i) := by
  by_cases hi : i = id
  · subst hi
    simp only [Parked, member?_setMember_self h, ne_eq, not_true_eq_false, true_and, false_and, or_false]
  · simp only [Parked, member?_setMember_of_ne hi, ne_eq, hi, not_false_eq_true, true_and, false_and, false_or]

/-- Nobody else waits after a consumer has come. -/
theorem parked_join_iff {cancelled : Bool} :
    ({ s with members := s.members ++ [some { cancelled }] } : Crowd α).Parked i ↔ s.Parked i := by
  constructor
  · rintro ⟨other, hother, hparked⟩
    rcases member?_join_cases hother with rfl | hold
    · cases hparked
    · exact ⟨other, hold, hparked⟩
  · rintro ⟨other, hother, hparked⟩
    refine ⟨other, ?_, hparked⟩
    rw [member?_eq_some_iff, List.getElem?_append_left (lt_of_member? hother)]
    exact member?_eq_some_iff.mp hother

/-- All are settled after a place was replaced by one that is. -/
theorem settled_setMember (hs : ∀ id m, s.member? id = some m → m.consumer.Settled) (hid : id < s.members.length)
    (hplace : ∀ m, place = some m → m.consumer.Settled) :
    ∀ i m, (s.setMember id place).member? i = some m → m.consumer.Settled := by
  intro i other hother
  by_cases hi : i = id
  · subst hi
    rw [member?_setMember_self hid] at hother
    exact hplace other hother
  · rw [member?_setMember_of_ne hi] at hother
    exact hs i other hother

theorem parked_iff (hm : s.member? id = some m) : s.Parked id ↔ m.consumer = .parked := by
  constructor
  · rintro ⟨other, hother, hparked⟩
    cases hm.symm.trans hother
    exact hparked
  · exact fun hparked => ⟨m, hm, hparked⟩

/-- A poll in a crowd does one of the things that a poll can do. -/
theorem Orderly.polled {token : Bool} {queue : JobQueue Nat α} {consumer : Consumer α} (hs : s.Orderly)
    (hm : s.member? id = some m) (h : m.consumer.poll id m.cancelled token s.queue = (queue, consumer)) :
    Consumer.Polled id m.cancelled token s.queue m.consumer queue consumer := by
  apply Consumer.poll_cases (hs.settled id m hm)
  · -- only those that wait are ever woken
    intro hchecking hwoken
    have hparked := (parked_iff hm).mp ((hs.signal.mem_iff id).mpr (List.mem_append_right _ hwoken))
    rw [hchecking] at hparked
    cases hparked
  · exact (List.nodup_append.mp hs.signal.nodup).2.1
  · exact h

/-- **Every step keeps a crowd orderly.** -/
theorem Step.orderly (step : s.Step action s') (hs : s.Orderly) : s'.Orderly := by
  obtain ⟨hsettled, hsignal⟩ := hs
  cases step with
  | push => exact ⟨hsettled, hsignal.notify⟩
  | finish => exact ⟨hsettled, hsignal⟩
  | @join cancelled =>
      refine ⟨fun i other hother => ?_, hsignal.congr fun i => parked_join_iff⟩
      rcases member?_join_cases hother with rfl | hold
      · exact .inl rfl
      · exact hsettled i other hold
  | @cancel id m hm =>
      have hlt := lt_of_member? hm
      refine ⟨settled_setMember hsettled hlt fun other hother => ?_, hsignal.congr fun i => ?_⟩
      · cases hother
        exact hsettled id m hm
      · rw [parked_setMember_iff hlt]
        by_cases hi : i = id
        · subst hi
          simp [parked_iff hm]
        · simp [hi]
  | @poll id token m queue consumer hm hpoll =>
      have hlt := lt_of_member? hm
      have hpolled := Orderly.polled ⟨hsettled, hsignal⟩ hm hpoll
      refine ⟨settled_setMember (s := { s with queue }) hsettled hlt fun other hother => ?_, ?_⟩
      · cases hother
        exact hpolled.settled
      · refine (hpolled.holds hsignal (parked_iff hm)).congr fun i => ?_
        rw [parked_setMember_iff (s := { s with queue }) hlt]
        simp [Parked, member?]
  | @leave id m hm =>
      have hlt := lt_of_member? hm
      refine ⟨settled_setMember (s := { s with queue := _ }) hsettled hlt nofun, ?_⟩
      have hgone : ∀ i, ({ s with queue := m.consumer.forget id s.queue }.setMember id none).Parked i ↔
          i ≠ id ∧ s.Parked i := by
        intro i
        rw [parked_setMember_iff (s := { s with queue := m.consumer.forget id s.queue }) hlt]
        simp [Parked, member?]
      have hout : m.consumer ≠ .parked → ∀ i, i ≠ id ∧ s.Parked i ↔ s.Parked i := by
        intro hne i
        refine ⟨And.right, fun hi => ⟨?_, hi⟩⟩
        rintro rfl
        exact hne ((parked_iff hm).mp hi)
      refine Signal.Holds.congr ?_ hgone
      cases hconsumer : m.consumer with
      | parked => exact hsignal.leave ((parked_iff hm).mpr hconsumer)
      | checking | looking | entering | returned _ =>
          refine hsignal.congr (hout ?_)
          rw [hconsumer]
          nofun

end Crowd

end JobWorker
