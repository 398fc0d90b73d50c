import JobWorker.Proofs.Ledger.Reports

/-!
# `JobWorker.Proofs.Ledger.LateUse` — what handlers leave and what handlings find

What a handling finds is not always what its handler left. A task that the handler started and did not wait for still
has the client, and may use it between the return of the handler and the look. Such a **late** use changes the outcome
that is pending, and nothing else does: the outcomes that were found, with those that are pending, are those that the
handlers left, with the late uses.

## Contents
- **Late uses.** `History.lateUses`, `Outcome.withUses`.
- **One handling.** `Handling.pending_use`, `Handling.Next.pending_moves`.
- **What is left and what is found.** `Ledger.Followed`; `Ledger.Followed.use`, `Ledger.Followed.advance`,
  `Ledger.Step.followed`; `Worker.run_followed`.
-/

namespace JobWorker

/-! ## Late uses -/

namespace History

variable (log log' : List Event)

/-- The handlings whose client was used between the return of the handler and the look, use by use. -/
def lateUses : List Nat :=
  log.filterMap fun
    | .used id (.returned _) => some id
    | _                      => none

theorem lateUses_append : lateUses (log ++ log') = lateUses log ++ lateUses log' := List.filterMap_append

/-- One use is late if the handler is back and its handling has not looked. -/
theorem mem_lateUses_used {id i : Nat} {phase : HandlingPhase} (h : id ∈ lateUses [.used i phase]) :
    id = i ∧ ∃ result, phase = .returned result := by
  cases phase with
  | returned result => exact ⟨List.mem_singleton.mp h, result, rfl⟩
  | _ => cases h

end History

namespace Outcome

/-- An outcome after further uses. -/
def withUses (ids : List Nat) (o : Outcome) : Outcome := { o with used := o.used || ids.contains o.id }

theorem withUses_of_notMem {ids : List Nat} {o : Outcome} (h : o.id ∉ ids) : o.withUses ids = o := by
  rw [withUses, List.contains_eq_mem, decide_eq_false h, Bool.or_false]

/-- The uses of other clients do not matter. -/
theorem map_withUses_of_notMem {ids : List Nat} {outs : List Outcome} (h : ∀ o ∈ outs, o.id ∉ ids) :
    outs.map (·.withUses ids) = outs := by
  rw [List.map_congr_left fun o hmem => withUses_of_notMem (h o hmem)]
  exact List.map_id _

theorem map_withUses_append (ids ids' : List Nat) (outs : List Outcome) :
    outs.map (·.withUses (ids ++ ids')) = (outs.map (·.withUses ids)).map (·.withUses ids') := by
  rw [List.map_map]
  refine List.map_congr_left fun o _ => ?_
  simp [withUses, Bool.or_assoc]

end Outcome

/-! ## One handling -/

namespace Handling

variable {config : WorkerConfig} {used : Nat → Bool} {h h' : Handling}

theorem id_of_mem_pending {o : Outcome} (hmem : o ∈ h.pending) : o.id = h.id := by
  unfold pending at hmem
  split at hmem
  · rw [List.mem_singleton.mp hmem]
  · cases hmem

/-- A use changes an outcome that is pending, and no other. -/
theorem pending_use (h : Handling) :
    pending { h with used := true } = h.pending.map (·.withUses (History.lateUses [.used h.id h.phase])) := by
  obtain ⟨id, job, used, phase⟩ := h
  cases phase with
  | returned result => simp [pending, Outcome.withUses, History.lateUses]
  | _ => rfl

/-- An outcome is pending from the return of the handler to the look. -/
theorem Next.pending_moves (next : h.Next config h') (hused : h.used = used h.id) :
    (Event.outcome? used (.advanced h.id h.job h.phase h'.phase)).toList ++ h'.pending =
      h.pending ++ (Event.return? used (.advanced h.id h.job h.phase h'.phase)).toList := by
  unfold pending
  cases next with
  | begin hp => rcases hp with hp | hp <;> simp [Event.outcome?, Event.return?, hp]
  | call hp | finish _ hp | report hp _ | skip hp _ | answer hp | discount hp | release hp =>
      simp [Event.outcome?, Event.return?, hp, hused]

/-- A handler that comes back was running. -/
theorem Next.of_return {o : Outcome} (next : h.Next config h')
    (ho : Event.return? used (.advanced h.id h.job h.phase h'.phase) = some o) : o.id = h.id ∧ h.phase = .running := by
  cases next with
  | finish result hp =>
      simp only [Event.return?, hp, Option.some.injEq] at ho
      rw [← ho]
      exact ⟨rfl, hp⟩
  | begin hp => rcases hp with hp | hp <;> simp [Event.return?, hp] at ho
  | call hp | report hp _ | skip hp _ | answer hp | discount hp | release hp => simp [Event.return?, hp] at ho

end Handling

/-! ## What is left and what is found -/

namespace Ledger

open History

variable {config : WorkerConfig} {L L' : Ledger} {log log' : List Event}

/-- The outcomes that handlings have found, or have yet to look at, are those that the handlers left, with the late
uses. -/
structure Followed (log : List Event) (L : Ledger) : Prop where
  back : ∀ id ∈ lateUses log, id ∈ (returns log).map (·.id)
  same : (outcomes log ++ L.pending).Perm ((returns log).map (·.withUses (lateUses log)))

/-- Where no handler comes back and no client is used, nothing happens to outcomes. -/
theorem Followed.keep (hL : L.Followed log) (hpending : L'.pending = L.pending)
    (houtcomes : pick Event.outcome? log log' = [])
    (hreturns : pick Event.return? log log' = []) (hlate : lateUses log' = []) : L'.Followed (log ++ log') := by
  have hreturns' : returns (log ++ log') = returns log := by rw [returns_append, hreturns, List.append_nil]
  have hlate' : lateUses (log ++ log') = lateUses log := by rw [lateUses_append, hlate, List.append_nil]
  refine ⟨?_, ?_⟩
  · rw [hlate', hreturns']
    exact hL.back
  · rw [outcomes_append, houtcomes, List.append_nil, hpending, hreturns', hlate']
    exact hL.same

section Among

variable {front back : List Handling} {h : Handling}

/-- A handling that has not looked has no outcome that was found. -/
theorem Settled.id_ne_of_unjudged (hL : L.Settled config log) (hbalanced : L.Balanced log)
    (hh : L.handlings = front ++ h :: back) (hp : h.phase.isPast .judged = false) :
    ∀ o ∈ outcomes log, o.id ≠ h.id := by
  intro o hmem
  have hpassed : (o.job, o.id) ∈ passings .judged log := hL.places ▸ List.mem_map_of_mem hmem
  have hawaiting : (h.job, h.id) ∈ L.awaiting .judged := by simp [awaiting, hh, hp]
  have hnodup := hbalanced.nodup_once .judged
  rw [List.map_append, List.nodup_append, List.map_append, List.nodup_append] at hnodup
  exact hnodup.1.2.2 o.id (List.mem_map_of_mem hpassed) h.id (List.mem_map_of_mem hawaiting)

/-- The outcomes of the other handlings have other numbers. -/
theorem Numbered.id_ne_of_mem_pending (hn : L.Numbered) (hh : L.handlings = front ++ h :: back) {o : Outcome}
    (hmem : o ∈ (front ++ back).flatMap Handling.pending) : o.id ≠ h.id := by
  obtain ⟨other, hother, ho⟩ := List.mem_flatMap.mp hmem
  rw [Handling.id_of_mem_pending ho]
  exact (hn.others hh hother).2.symm

/-- A use changes no outcome that was found. -/
theorem Settled.outcomes_use (hL : L.Settled config log) (hbalanced : L.Balanced log)
    (hh : L.handlings = front ++ h :: back) :
    (outcomes log).map (·.withUses (lateUses [.used h.id h.phase])) = outcomes log := by
  refine Outcome.map_withUses_of_notMem fun o hmem hid => ?_
  obtain ⟨hown, result, hreturned⟩ := mem_lateUses_used hid
  exact hL.id_ne_of_unjudged hbalanced hh (by rw [hreturned]; rfl) o hmem hown

/-- A use changes the outcome that is pending for its own handling, if there is one. -/
theorem pending_use (hn : L.Numbered) (hh : L.handlings = front ++ h :: back) :
    pending { L with handlings := front ++ { h with used := true } :: back } =
      L.pending.map (·.withUses (lateUses [.used h.id h.phase])) := by
  have hothers : ∀ hs : List Handling, (∀ other ∈ hs, other ∈ front ++ back) →
      (hs.flatMap Handling.pending).map (·.withUses (lateUses [.used h.id h.phase])) =
        hs.flatMap Handling.pending := by
    refine fun hs hsub => Outcome.map_withUses_of_notMem fun o hmem hid => ?_
    obtain ⟨other, hother, ho⟩ := List.mem_flatMap.mp hmem
    have hamong : o ∈ (front ++ back).flatMap Handling.pending := List.mem_flatMap.mpr ⟨other, hsub other hother, ho⟩
    exact hn.id_ne_of_mem_pending hh hamong (mem_lateUses_used hid).1
  rw [pending, pending, hh, List.flatMap_append, List.flatMap_append, List.flatMap_cons, List.flatMap_cons,
    List.map_append, List.map_append, hothers front fun _ => List.mem_append_left _,
    hothers back fun _ => List.mem_append_right _, h.pending_use]

/-- A handling that has not looked, and for which no outcome is pending, has not been used late. -/
theorem Followed.notMem_lateUses (hL : L.Followed log) (hbalanced : L.Balanced log) (hsettled : L.Settled config log)
    (hh : L.handlings = front ++ h :: back) (hp : h.phase.isPast .judged = false) (hnone : h.pending = []) :
    h.id ∉ lateUses log := by
  intro hid
  obtain ⟨o, ho, hown⟩ := List.mem_map.mp (hL.back h.id hid)
  have hown' : (o.withUses (lateUses log)).id = h.id := hown
  rcases List.mem_append.mp (hL.same.symm.subset (List.mem_map_of_mem ho)) with hfound | hpending
  · exact hsettled.id_ne_of_unjudged hbalanced hh hp _ hfound hown'
  · rw [pending, hh, List.flatMap_append, List.flatMap_cons, hnone, List.nil_append, ← List.flatMap_append] at hpending
    exact hbalanced.numbered.id_ne_of_mem_pending hh hpending hown'

/-- A late use changes the outcome of a handling that has one. -/
theorem Followed.use (hL : L.Followed log) (hbalanced : L.Balanced log) (hsettled : L.Settled config log)
    (hh : L.handlings = front ++ h :: back) :
    Followed (log ++ [.used h.id h.phase]) { L with handlings := front ++ { h with used := true } :: back } := by
  have hreturns : returns (log ++ [.used h.id h.phase]) = returns log := by
    rw [returns_append, pick_singleton]
    exact List.append_nil _
  have houtcomes : outcomes (log ++ [.used h.id h.phase]) = outcomes log := by
    rw [outcomes_append, pick_singleton]
    exact List.append_nil _
  refine ⟨fun id hid => ?_, ?_⟩
  · rw [lateUses_append] at hid
    rw [hreturns]
    rcases List.mem_append.mp hid with hold | hnew
    · exact hL.back id hold
    · -- the handler is back, so that its outcome is pending, and it is one of those that were left
      obtain ⟨rfl, result, hreturned⟩ := mem_lateUses_used hnew
      have hmem : (⟨h.id, h.job, h.used, result⟩ : Outcome) ∈ outcomes log ++ L.pending := by
        refine List.mem_append_right _ (List.mem_flatMap.mpr ⟨h, by simp [hh], ?_⟩)
        simp [Handling.pending, hreturned]
      obtain ⟨o, ho, heq⟩ := List.mem_map.mp (hL.same.subset hmem)
      exact List.mem_map.mpr ⟨o, ho, congrArg Outcome.id heq⟩
  · have hsame := hL.same.map (·.withUses (lateUses [.used h.id h.phase]))
    rw [List.map_append, hsettled.outcomes_use hbalanced hh, ← Outcome.map_withUses_append, ← lateUses_append] at hsame
    rw [houtcomes, hreturns, pending_use hbalanced.numbered hh]
    exact hsame

/-- An outcome that a handler leaves is pending until its handling looks. -/
theorem Followed.advance {h' : Handling} (hL : L.Followed log) (hbalanced : L.Balanced log)
    (hsettled : L.Settled config log) (hh : L.handlings = front ++ h :: back) (next : h.Next config h')
    (hh' : L'.handlings = front ++ h' :: back) : L'.Followed (log ++ [.advanced h.id h.job h.phase h'.phase]) := by
  have hlate : lateUses (log ++ [.advanced h.id h.job h.phase h'.phase]) = lateUses log := by
    rw [lateUses_append]
    exact List.append_nil _
  have hreturns := returns_append log [.advanced h.id h.job h.phase h'.phase]
  rw [pick_singleton] at hreturns
  refine ⟨fun id hid => ?_, ?_⟩
  · rw [hlate] at hid
    rw [hreturns, List.map_append]
    exact List.mem_append_left _ (hL.back id hid)
  · -- a handler that was running until now has not been used late
    have hnew : ((Event.return? (uses log).contains (.advanced h.id h.job h.phase h'.phase)).toList.map
        (·.withUses (lateUses log))) =
        (Event.return? (uses log).contains (.advanced h.id h.job h.phase h'.phase)).toList := by
      refine Outcome.map_withUses_of_notMem fun o ho hid => ?_
      obtain ⟨hown, hrunning⟩ := next.of_return (Option.mem_toList.mp ho)
      have hnone : h.pending = [] := by rw [Handling.pending, hrunning]
      exact hL.notMem_lateUses hbalanced hsettled hh (by rw [hrunning]; rfl) hnone (hown ▸ hid)
    have hsame := hL.same
    rw [pending, hh, List.flatMap_append, List.flatMap_cons] at hsame
    have hmoved := perm_made (next.pending_moves (hsettled.marked.used h (by simp [hh]))) hsame
    rw [outcomes_append, pick_singleton, hlate, hreturns, List.map_append, hnew, pending, hh', List.flatMap_append,
      List.flatMap_cons]
    exact hmoved

end Among

/-- **Every step keeps track of the outcomes:** a handler that comes back leaves one, a late use changes it, and the
look finds it. -/
theorem Step.followed (step : Step config L log' L') (hbalanced : L.Balanced log) (hsettled : L.Settled config log)
    (hL : L.Followed log) : L'.Followed (log ++ log') := by
  cases step with
  | quiet | ask | hangUp | receive | count | store | take => exact hL.keep rfl rfl rfl rfl
  | launch hheld => exact hL.keep (by simp [pending, Handling.pending]) rfl rfl rfl
  | retire hh hp | collapse hh hp => exact hL.keep (by simp [pending, Handling.pending, hh, hp]) rfl rfl rfl
  | use hh hp => exact hL.use hbalanced hsettled hh
  | advance hh next => exact hL.advance hbalanced hsettled hh next rfl

end Ledger

namespace Worker

variable {config : WorkerConfig} {kind : HandlerKind} {now : Time} {actions : List Action} {w : Worker}

/-- So does every run. -/
theorem run_followed (h : run actions (start config kind now) = some w) :
    w.ledger.Followed (history actions (start config kind now)) := by
  have opening : (start config kind now).ledger.Followed [] := ⟨(fun _ hmem => nomatch hmem), .nil⟩
  have run := run_ledger start_balanced.numbered h
  have kept := run.preserves
    (P := fun log L => L.Balanced log ∧ L.Settled config log ∧ L.Followed log)
    (fun hL step => ⟨step.balanced hL.1, step.settled hL.1.numbered hL.2.1, step.followed hL.1 hL.2.1 hL.2.2⟩)
    ⟨start_balanced, start_settled, opening⟩
  exact kept.2.2

end Worker

end JobWorker
