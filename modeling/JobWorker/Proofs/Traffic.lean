import JobWorker.Proofs.Traffic.Step

/-!
# `JobWorker.Proofs.Traffic` — each job goes to one consumer, in order

However pushes and consumers overlap at a queue, what has left it followed by what is in it is what was put into it, in
that order. Each job that has left is the result of exactly one consumer, and one without a result has taken none.

## Contents
- **Records.** `Records`, `Traffic.HasStored`, `Traffic.HasTaken`.
- **The account.** `Traffic.Accounted`, `Traffic.Step.accounted`, `Traffic.run_accounted`.
- **Tokens that have fired before.** `Traffic.Barred`, `Traffic.Step.barred`, `Traffic.run_barred`.
- **The law.** `Traffic.run_hands_out`.
-/

namespace JobWorker

/-! ## Records -/

section Records

variable {α : Type} {holds holds' : Nat → α → Prop} {records : List (Nat × α)} {id : Nat} {a : α}

/-- Records with at most one entry for each number, which say what holds of it. -/
structure Records (holds : Nat → α → Prop) (records : List (Nat × α)) : Prop where
  nodup : (records.map Prod.fst).Nodup
  mem_iff : ∀ id a, (id, a) ∈ records ↔ holds id a

theorem Records.congr (hr : Records holds records) (h : ∀ id a, holds' id a ↔ holds id a) : Records holds' records :=
  ⟨hr.nodup, fun id a => (hr.mem_iff id a).trans (h id a).symm⟩

/-- One more entry, for a number of which nothing held. -/
theorem Records.concat (hr : Records holds records) (hnew : ∀ b, ¬holds id b)
    (h : ∀ i b, holds' i b ↔ (i = id ∧ b = a) ∨ holds i b) : Records holds' (records ++ [(id, a)]) := by
  refine ⟨?_, fun i b => ?_⟩
  · rw [List.map_append, List.map_cons, List.map_nil, List.nodup_append]
    refine ⟨hr.nodup, List.nodup_cons.mpr ⟨List.not_mem_nil, List.nodup_nil⟩, ?_⟩
    rintro i hi j hj rfl
    obtain ⟨⟨_, b⟩, hb, rfl⟩ := List.mem_map.mp hi
    rw [List.mem_singleton] at hj
    subst hj
    exact hnew b ((hr.mem_iff _ b).mp hb)
  · rw [List.mem_append, List.mem_singleton, Prod.mk.injEq, h, hr.mem_iff, or_comm]

end Records

namespace Traffic

variable {α : Type} {s s' : Traffic α} {actions rest : List (TrafficAction α)} {log events : List (TrafficEvent α)}
variable {id i : Nat} {m m' : Member α} {place : Option (Member α)} {p p' : Push α} {job job' : α}
variable {q : JobQueue Nat α} {cancelled : Bool}

/-- A push has put its job into the queue. -/
def HasStored (s : Traffic α) (id : Nat) (job : α) : Prop :=
  ∃ p, s.pushes[id]? = some p ∧ p.job = job ∧ p.isStored = true

/-- A consumer has a job for its result. -/
def HasTaken (s : Traffic α) (id : Nat) (job : α) : Prop :=
  ∃ m, s.member? id = some m ∧ m.consumer = .returned (some job)

theorem hasStored_iff (hp : s.pushes[id]? = some p) : s.HasStored id job ↔ p.job = job ∧ p.isStored = true := by
  constructor
  · rintro ⟨other, hother, hstored⟩
    cases hp.symm.trans hother
    exact hstored
  · exact fun hstored => ⟨p, hp, hstored⟩

theorem hasStored_set_iff (hp : s.pushes[id]? = some p) :
    ({ s with queue := q, pushes := s.pushes.set id p' } : Traffic α).HasStored i job ↔
      (i = id ∧ p'.job = job ∧ p'.isStored = true) ∨ (i ≠ id ∧ s.HasStored i job) :=
  exists_getElem?_set_iff (List.getElem?_eq_some_iff.mp hp).1

theorem hasTaken_iff (hm : s.member? id = some m) : s.HasTaken id job ↔ m.consumer = .returned (some job) := by
  constructor
  · rintro ⟨other, hother, htaken⟩
    cases hm.symm.trans hother
    exact htaken
  · exact fun htaken => ⟨m, hm, htaken⟩

/-- The consumer with a number, after a place was replaced. -/
theorem member?_setMember_cases (hm : s.member? id = some m)
    (h : ((s.setQueue q).setMember id place).member? i = some m') :
    i = id ∧ place = some m' ∨ i ≠ id ∧ s.member? i = some m' := by
  have hlt := Crowd.lt_of_member? hm
  by_cases hi : i = id
  · subst hi
    exact .inl ⟨rfl, (Crowd.member?_setMember_self (s := { s.toCrowd with queue := q }) hlt).symm.trans h⟩
  · exact .inr ⟨hi, (Crowd.member?_setMember_of_ne (s := { s.toCrowd with queue := q }) hi).symm.trans h⟩

theorem hasTaken_setMember_iff (hm : s.member? id = some m) :
    ((s.setQueue q).setMember id place).HasTaken i job ↔
      (i = id ∧ ∃ m, place = some m ∧ m.consumer = .returned (some job)) ∨ (i ≠ id ∧ s.HasTaken i job) := by
  have hlt := Crowd.lt_of_member? hm
  by_cases hi : i = id
  · subst hi
    have hself : ((s.setQueue q).setMember i place).member? i = place :=
      Crowd.member?_setMember_self (s := { s.toCrowd with queue := q }) hlt
    simp [HasTaken, hself]
  · have hother : ((s.setQueue q).setMember id place).member? i = s.member? i :=
      Crowd.member?_setMember_of_ne (s := { s.toCrowd with queue := q }) hi
    simp [HasTaken, hother, hi]

/-- A consumer that has no job, and one that is put in its place and has none either, change nothing. -/
theorem hasTaken_setMember_iff_of_empty (hm : s.member? id = some m)
    (hbefore : ∀ job, m.consumer ≠ .returned (some job))
    (hafter : ∀ m', place = some m' → ∀ job, m'.consumer ≠ .returned (some job)) :
    ((s.setQueue q).setMember id place).HasTaken i job ↔ s.HasTaken i job := by
  rw [hasTaken_setMember_iff hm]
  constructor
  · rintro (⟨-, m', hm', htaken⟩ | ⟨-, htaken⟩)
    · exact absurd htaken (hafter m' hm' job)
    · exact htaken
  · intro htaken
    refine .inr ⟨?_, htaken⟩
    rintro rfl
    exact hbefore job ((hasTaken_iff hm).mp htaken)

/-- One that has just come has no result. -/
theorem hasTaken_join_iff :
    ({ s with members := s.members ++ [some { cancelled }] } : Traffic α).HasTaken i job ↔ s.HasTaken i job := by
  constructor
  · rintro ⟨other, hother, htaken⟩
    rcases Crowd.member?_join_cases hother with rfl | hold
    · cases htaken
    · exact ⟨other, hold, htaken⟩
  · rintro ⟨other, hother, htaken⟩
    refine ⟨other, ?_, htaken⟩
    rw [Crowd.member?_eq_some_iff, List.getElem?_append_left (Crowd.lt_of_member? hother)]
    exact Crowd.member?_eq_some_iff.mp hother

/-! ## The account -/

/-- What the log of a run says of the state that it has led to. -/
structure Accounted (log : List (TrafficEvent α)) (s : Traffic α) : Prop where
  order : (takings log).map Prod.snd ++ s.queue.jobs = (storings log).map Prod.snd
  stored : Records s.HasStored (storings log)
  taken : Records s.HasTaken (takings log)
  quits : ∀ id m, s.member? id = some m → m.consumer = .returned none → m.cancelled = true

/-- Where nothing happens to jobs, the account stays. -/
theorem Accounted.aside (hs : s.Accounted log) (hjobs : s'.queue.jobs = s.queue.jobs)
    (hstored : ∀ id job, s'.HasStored id job ↔ s.HasStored id job)
    (htaken : ∀ id job, s'.HasTaken id job ↔ s.HasTaken id job)
    (hquits : ∀ id m, s'.member? id = some m → m.consumer = .returned none → m.cancelled = true) :
    s'.Accounted (log ++ []) := by
  rw [List.append_nil]
  exact ⟨hjobs ▸ hs.order, hs.stored.congr hstored, hs.taken.congr htaken, hquits⟩

/-- Who quits is cancelled, after a place was replaced by one of which this is true. -/
theorem Accounted.quits_setMember (hs : s.Accounted log) (hm : s.member? id = some m)
    (hplace : ∀ m', place = some m' → m'.consumer = .returned none → m'.cancelled = true) :
    ∀ i m', ((s.setQueue q).setMember id place).member? i = some m' → m'.consumer = .returned none →
      m'.cancelled = true := by
  intro i m' hm' hnone
  rcases member?_setMember_cases hm hm' with ⟨-, hnew⟩ | ⟨-, hold⟩
  · exact hplace m' hnew hnone
  · exact hs.quits i m' hold hnone

/-- **Every step keeps the account.** -/
theorem Step.accounted (step : s.Step events s') (hs : s.Accounted log) : s'.Accounted (log ++ events) := by
  cases step with
  | aside hjobs => exact hs.aside hjobs (fun _ _ => Iff.rfl) (fun _ _ => Iff.rfl) hs.quits
  | offer =>
      refine hs.aside rfl (fun i a => ?_) (fun _ _ => Iff.rfl) hs.quits
      exact exists_getElem?_concat_iff fun h => nomatch h.2
  | @store id job hp =>
      have hnew : ∀ b, ¬s.HasStored id b := fun b hb => nomatch ((hasStored_iff hp).mp hb).2
      refine ⟨?_, ?_, ?_, hs.quits⟩
      · show (takings (log ++ [.stored id job])).map Prod.snd ++ (s.queue.jobs ++ [job]) = _
        simp [← hs.order]
      · rw [storings_append]
        refine hs.stored.concat hnew fun i b => ?_
        rw [hasStored_set_iff hp]
        constructor
        · rintro (⟨rfl, rfl, -⟩ | ⟨-, hold⟩)
          · exact .inl ⟨rfl, rfl⟩
          · exact .inr hold
        · rintro (⟨rfl, rfl⟩ | hold)
          · exact .inl ⟨rfl, rfl, rfl⟩
          · refine .inr ⟨?_, hold⟩
            rintro rfl
            exact hnew b hold
      · rw [takings_append, takings_stored, List.append_nil]
        exact hs.taken
  | @proceed id p p' queue hp hjob hstored hjobs =>
      refine hs.aside hjobs (fun i a => ?_) (fun _ _ => Iff.rfl) hs.quits
      rw [hasStored_set_iff hp, hjob, hstored]
      by_cases hi : i = id
      · subst hi
        simp [hasStored_iff hp]
      · simp [hi]
  | join =>
      refine hs.aside rfl (fun _ _ => Iff.rfl) (fun i a => hasTaken_join_iff) fun i other hother hnone => ?_
      rcases Crowd.member?_join_cases hother with rfl | hold
      · cases hnone
      · exact hs.quits i other hold hnone
  | @cancel id m hm =>
      refine hs.aside rfl (fun _ _ => Iff.rfl) (fun i a => ?_) (hs.quits_setMember (q := s.queue) hm ?_)
      · refine (hasTaken_setMember_iff (q := s.queue) hm).trans ?_
        by_cases hi : i = id
        · subst hi
          simp [hasTaken_iff hm]
        · simp [hi]
      · rintro m' ⟨⟩ -
        rfl
  | @take id cancelled job js hm hjobs =>
      have hnew : ∀ b, ¬s.HasTaken id b := fun b hb => nomatch (hasTaken_iff hm).mp hb
      refine ⟨?_, ?_, ?_, hs.quits_setMember hm ?_⟩
      · show (takings (log ++ [.taken id job])).map Prod.snd ++ js = _
        simp [← hs.order, hjobs]
      · rw [storings_append, storings_taken, List.append_nil]
        exact hs.stored
      · rw [takings_append]
        refine hs.taken.concat hnew fun i b => ?_
        rw [hasTaken_setMember_iff hm]
        constructor
        · rintro (⟨rfl, m', ⟨⟩, ⟨⟩⟩ | ⟨-, hold⟩)
          · exact .inl ⟨rfl, rfl⟩
          · exact .inr hold
        · rintro (⟨rfl, rfl⟩ | hold)
          · exact .inl ⟨rfl, _, rfl, rfl⟩
          · refine .inr ⟨?_, hold⟩
            rintro rfl
            exact hnew b hold
      · rintro m' ⟨⟩ ⟨⟩
  | @pass id m consumer queue hm hjobs hpasses =>
      refine hs.aside hjobs (fun _ _ => Iff.rfl) (fun i a => ?_) (hs.quits_setMember hm ?_)
      · refine hasTaken_setMember_iff_of_empty hm (fun job => hpasses.going (some job)) ?_
        rintro m' ⟨⟩ job
        exact hpasses.empty job
      · rintro m' ⟨⟩ hnone
        exact hpasses.quits hnone
  | @leave id m queue hm hgoing hjobs =>
      refine hs.aside hjobs (fun _ _ => Iff.rfl) (fun i a => ?_) (hs.quits_setMember hm nofun)
      exact hasTaken_setMember_iff_of_empty hm (fun job => hgoing (some job)) nofun

theorem run_accounted {maxJobs : Nat} (h : run actions (ofMax maxJobs) = some s) :
    s.Accounted (history actions (ofMax maxJobs)) := by
  refine run_preserves (fun hs step => step.accounted hs) [] ⟨rfl, ?_, ?_, ?_⟩ h
  · exact ⟨List.nodup_nil, fun id a => iff_of_false List.not_mem_nil fun ⟨p, hp, _⟩ => nomatch hp⟩
  · exact ⟨List.nodup_nil, fun id a => iff_of_false List.not_mem_nil fun ⟨m, hm, _⟩ => nomatch hm⟩
  · intro id m hm
    cases hm

/-! ## Tokens that have fired before -/

/-- A consumer whose token fired before it looked at it has taken nothing: it has not looked yet, it has given up, or it
has left. -/
structure Barred (id : Nat) (log : List (TrafficEvent α)) (s : Traffic α) : Prop where
  there : id < s.members.length
  idle : ∀ job, (id, job) ∉ takings log
  stands : ∀ m, s.member? id = some m → m.cancelled = true ∧ (m.consumer = .checking ∨ m.consumer = .returned none)

/-- It stays so as a place is replaced, its own by one of which the same is true. -/
theorem Barred.setMember (hs : s.Barred i log) (hm : s.member? id = some m)
    (hplace : i = id → ∀ m', place = some m' →
      m'.cancelled = true ∧ (m'.consumer = .checking ∨ m'.consumer = .returned none)) :
    ((s.setQueue q).setMember id place).Barred i (log ++ []) := by
  obtain ⟨hthere, hidle, hstands⟩ := hs
  rw [List.append_nil]
  refine ⟨?_, hidle, fun m' hm' => ?_⟩
  · show i < (s.members.set id place).length
    rw [List.length_set]
    exact hthere
  · rcases member?_setMember_cases hm hm' with ⟨hi, hnew⟩ | ⟨-, hold⟩
    · exact hplace hi m' hnew
    · exact hstands m' hold

/-- **Every step keeps it so.** -/
theorem Step.barred (step : s.Step events s') (hs : s.Barred i log) : s'.Barred i (log ++ events) := by
  have hsame : ∀ {v : Traffic α}, v.toCrowd.members = s.members → v.Barred i (log ++ []) := by
    intro v hmembers
    rw [List.append_nil]
    refine ⟨hmembers ▸ hs.there, hs.idle, fun m hm => hs.stands m ?_⟩
    rw [Crowd.member?, hmembers] at hm
    exact hm
  cases step with
  | aside _ | offer | proceed _ _ _ _ => exact hsame rfl
  | store _ =>
      obtain ⟨hthere, hidle, hstands⟩ := hs
      refine ⟨hthere, ?_, hstands⟩
      rw [takings_append, takings_stored, List.append_nil]
      exact hidle
  | join =>
      rw [List.append_nil]
      refine ⟨?_, hs.idle, fun m hm => hs.stands m ?_⟩
      · rw [List.length_append]
        exact Nat.lt_of_lt_of_le hs.there (Nat.le_add_right _ _)
      · rw [Crowd.member?_eq_some_iff, List.getElem?_append_left hs.there] at hm
        exact Crowd.member?_eq_some_iff.mpr hm
  | cancel hm =>
      refine hs.setMember (q := s.queue) hm ?_
      rintro rfl m' ⟨⟩
      exact ⟨rfl, (hs.stands _ hm).2⟩
  | @take id cancelled job js hm hjobs =>
      have hi : i ≠ id := by
        rintro rfl
        rcases (hs.stands _ hm).2 with hchecking | hnone
        · cases hchecking
        · cases hnone
      have hkept : ((s.setQueue { s.queue with jobs := js }).setMember id
          (some ⟨.returned (some job), cancelled⟩)).Barred i (log ++ []) := hs.setMember hm fun h => absurd h hi
      refine ⟨hkept.there, fun a ha => ?_, hkept.stands⟩
      rw [takings_append, takings_taken, List.mem_append, List.mem_singleton, Prod.mk.injEq] at ha
      rcases ha with hold | ⟨hid, -⟩
      · exact hs.idle a hold
      · exact hi hid
  | @pass id m consumer queue hm hjobs hpasses =>
      refine hs.setMember hm ?_
      rintro rfl m' ⟨⟩
      obtain ⟨hcancelled, hchecking | hnone⟩ := hs.stands m hm
      · exact ⟨hcancelled, .inr (hpasses.barred hchecking hcancelled)⟩
      · exact absurd hnone (hpasses.going none)
  | leave hm _ _ => exact hs.setMember hm (by simp)

theorem run_barred (hs : s.Barred i []) (h : run rest s = some s') : s'.Barred i (history rest s) :=
  run_preserves (fun hs step => step.barred hs) [] hs h

/-- One that is about to look at a token that has fired takes nothing. -/
theorem barred_of_checking (hm : s.member? id = some m) (hchecking : m.consumer = .checking)
    (hcancelled : m.cancelled = true) : s.Barred id [] := by
  refine ⟨Crowd.lt_of_member? hm, fun _ => List.not_mem_nil, fun m' hm' => ?_⟩
  cases hm.symm.trans hm'
  exact ⟨hcancelled, .inl hchecking⟩

/-- One that has just come is about to look at its token. -/
theorem member?_join : ({ s with members := s.members ++ [some { cancelled }] } : Traffic α).member? s.members.length =
    some { cancelled } := by
  rw [Crowd.member?_eq_some_iff, List.getElem?_concat_length]

/-! ## The law -/

/-- A consumer that has not taken a job so far, and takes none from here on, never does. -/
theorem not_mem_takings (hs : s.Accounted log) (hbarred : s.Barred id []) (hrest : run rest s = some s') (job : α) :
    (id, job) ∉ takings (log ++ history rest s) := by
  rw [takings_append, List.mem_append, not_or]
  refine ⟨fun hmem => ?_, (run_barred hbarred hrest).idle job⟩
  obtain ⟨m, hm, htaken⟩ := (hs.taken.mem_iff id job).mp hmem
  rcases (hbarred.stands m hm).2 with hchecking | hnone
  · cases hchecking.symm.trans htaken
  · cases hnone.symm.trans htaken

/-- What is put into the queue while one push has stored its job and another has not begun comes in that order. -/
theorem storings_sublist (hs : s.Accounted log) (hi : s.HasStored i job) (hid : s.pushes.length ≤ id)
    (hmem : (id, job') ∈ storings (log ++ history rest s)) :
    [(i, job), (id, job')].Sublist (storings (log ++ history rest s)) := by
  rw [storings_append] at hmem ⊢
  have hlater : (id, job') ∈ storings (history rest s) := by
    refine (List.mem_append.mp hmem).resolve_left fun hold => ?_
    obtain ⟨p, hp, -⟩ := (hs.stored.mem_iff id job').mp hold
    exact absurd (List.getElem?_eq_some_iff.mp hp).1 (Nat.not_lt.mpr hid)
  have hfirst : (i, job) ∈ storings log := (hs.stored.mem_iff i job).mpr hi
  exact (List.singleton_sublist.mpr hfirst).append (List.singleton_sublist.mpr hlater)

/-- **Each job goes to one consumer, in order.** In traffic that a run reaches, however pushes, steps of consumers and
firing tokens overlapped:

* the jobs that were taken, in the order in which they left the queue, followed by those in it, are the jobs that were
  put into it, in that order,
* each push has put its job in at most once, and a push that has done so before another began comes before it,
* a consumer has taken a job if and only if that job is its result, and it has taken no other,
* one without a result that has ended is cancelled, and has taken nothing,
* one that is about to look at its token when that has fired gives up, leaves the queue as it is, and never takes a job;
  so does one whose token has fired before it comes,
* one that looks for a job while there are some has the first of them for its result. -/
theorem run_hands_out {maxJobs : Nat} (h : run actions (ofMax maxJobs) = some s) :
    let log := fun rest => history (actions ++ rest) (ofMax maxJobs)
    ((takings (log [])).map Prod.snd ++ s.queue.jobs = (storings (log [])).map Prod.snd) ∧
    (Records s.HasStored (storings (log [])) ∧ ∀ rest s', run rest s = some s' → ∀ i job id job', s.HasStored i job →
      s.pushes.length ≤ id → (id, job') ∈ storings (log rest) → [(i, job), (id, job')].Sublist (storings (log rest))) ∧
    Records s.HasTaken (takings (log [])) ∧
    (∀ id m, s.member? id = some m → m.consumer = .returned none →
      m.cancelled = true ∧ ∀ job, (id, job) ∉ takings (log [])) ∧
    (∀ id m, s.member? id = some m → m.consumer = .checking → m.cancelled = true →
      (∀ token, s.perform (.next id token) = some (s.setMember id (some { m with consumer := .returned none }))) ∧
      ∀ rest s', run rest s = some s' → ∀ job, (id, job) ∉ takings (log rest)) ∧
    (∀ rest s', run (.join true :: rest) s = some s' →
      ∀ job, (s.members.length, job) ∉ takings (log (.join true :: rest))) ∧
    ∀ id m job js, s.member? id = some m → m.consumer = .looking → s.queue.jobs = job :: js →
      ∀ token, ∃ s', s.perform (.next id token) = some s' ∧ s'.HasTaken id job ∧ s'.queue.jobs = js := by
  intro log
  have hs := run_accounted h
  have hlog : ∀ rest, log rest = history actions (ofMax maxJobs) ++ history rest s := fun rest => history_append h
  have hnow : log [] = history actions (ofMax maxJobs) := (hlog []).trans (List.append_nil _)
  rw [hnow]
  refine ⟨hs.order, ⟨hs.stored, ?_⟩, hs.taken, ?_, ?_, ?_, ?_⟩
  · intro rest s' _ i job id job' hi hid hmem
    rw [hlog] at hmem ⊢
    exact storings_sublist hs hi hid hmem
  · intro id m hm hnone
    refine ⟨hs.quits id m hm hnone, fun job hmem => ?_⟩
    rw [hs.taken.mem_iff, hasTaken_iff hm, hnone] at hmem
    cases hmem
  · intro id m hm hchecking hcancelled
    refine ⟨fun token => ?_, fun rest s' hrest job => ?_⟩
    · refine perform_next hm ?_
      rw [hchecking, hcancelled]
      rfl
    · rw [hlog]
      exact not_mem_takings hs (barred_of_checking hm hchecking hcancelled) hrest job
  · intro rest s' hrest job
    let joined : Traffic α := { s with members := s.members ++ [some { cancelled := true }] }
    have hhistory : history (.join true :: rest) s = history rest joined := rfl
    have hjoined : joined.Accounted (history actions (ofMax maxJobs) ++ []) := Step.accounted .join hs
    rw [List.append_nil] at hjoined
    rw [hlog, hhistory]
    exact not_mem_takings hjoined (barred_of_checking member?_join rfl rfl) hrest job
  · intro id m job js hm hlooking hjobs token
    have htake : m.consumer.step id m.cancelled token s.queue =
        some ({ s.queue with jobs := js }, .returned (some job)) := by
      rw [hlooking, Consumer.step_looking_cons hjobs]
    exact ⟨_, perform_next hm htake, (hasTaken_setMember_iff hm).mpr (.inl ⟨rfl, _, rfl, rfl⟩), rfl⟩

/-- Two pushes overlap, and the one that began later stores its job first. A consumer that waited is woken, its token
fires, and it notices the wake-up; another comes with a token that has fired; a third gets the first job. -/
def overlapping : List (TrafficAction Nat) :=
  [.join false, .next 0 true, .next 0 true, .next 0 true, .offer 7, .offer 8, .push 0, .push 1, .push 1, .push 0,
    .push 0, .cancel 0, .next 0 false, .next 0 true, .join true, .next 1 true, .join false, .next 2 true, .next 2 true]

/-- The two that are cancelled have taken nothing, and the other job is still there. -/
theorem hands_out_overlapping :
    ∃ s : Traffic Nat, run overlapping (ofMax 4) = some s ∧ s.queue.jobs = [7] ∧ Records s.HasTaken [(2, 8)] ∧
      Records s.HasStored [(1, 8), (0, 7)] ∧ s.member? 0 = some ⟨.returned none, true⟩ ∧
      s.member? 1 = some ⟨.returned none, true⟩ := by
  obtain ⟨s, hrun⟩ : ∃ s : Traffic Nat, run overlapping (ofMax 4) = some s := ⟨_, rfl⟩
  obtain ⟨-, ⟨hstored, -⟩, htaken, -⟩ := run_hands_out hrun
  cases hrun
  exact ⟨_, rfl, rfl, htaken, hstored, rfl, rfl⟩

end Traffic

end JobWorker
