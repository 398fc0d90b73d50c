import JobWorker.Proofs.History

/-!
# `JobWorker.Proofs.Ledger` — where the jobs of a worker are

A job that was received is on its way through a worker: due to be counted, half-way into the queue, queued,
held by the dispatcher, or in a handling. A *ledger* keeps these places and nothing else of a worker, and
`Ledger.Step` lists the few ways in which a job changes its place, each with its event. Whatever a worker
does is such a step (`Worker.perform_step`, in `JobWorker.Proofs.Ledger.Simulation`), so that a law about
jobs is proved once for each line of `Ledger.Step`.

## Contents
- **Places.** `Poller.asked`, `Poller.due`, `Poller.entering`, `Dispatcher.held`.
- **The ledger.** `Ledger`, `Worker.ledger`, `Ledger.awaiting`.
- **Steps.** `Handling.Next`, `Ledger.Step`, `Ledger.Run`.
- **Induction.** `Ledger.Run.preserves`.
- **Numbers.** `Ledger.Step.numbered`.
-/

namespace JobWorker

/-! ## Places -/

/-- How many jobs the open call asked for, if there is an open call. -/
def Poller.asked (p : Poller) : Option Nat :=
  match p.phase with
  | .calling _ | .delivering _ _ | .counted _ _ _ | .stored _ _ => some p.request.maxJobs.toNat
  | _                                                           => none

/-- The jobs that were received and not yet counted. -/
def Poller.due (p : Poller) : List Job :=
  match p.phase with
  | .delivering _ jobs | .counted _ _ jobs | .stored _ jobs => jobs
  | _                                                       => []

/-- The job that was counted and not yet put into the queue: its push has only begun. -/
def Poller.entering (p : Poller) : Option Job :=
  match p.phase with
  | .counted _ job _ => some job
  | _                => none

/-- The job that was taken out of the queue and has no handling yet. -/
def Dispatcher.held {α : Type} : Dispatcher α → Option α
  | .fetching (.returned job) => job
  | .launching job            => some job
  | _                         => none

/-! ## The ledger -/

/-- The places of jobs, the count of jobs in hand, and its limit. -/
structure Ledger where
  limit : Nat
  inHand : Nat
  asked : Option Nat
  due : List Job
  entering : Option Job
  queue : List Job
  held : Option Job
  launched : Nat
  handlings : List Handling

/-- The ledger of a worker. -/
def Worker.ledger (w : Worker) : Ledger where
  limit := w.queue.load.maxJobs
  inHand := w.queue.load.inHand
  asked := w.poller.asked
  due := w.poller.due
  entering := w.poller.entering
  queue := w.queue.jobs
  held := w.dispatcher.held
  launched := w.launched
  handlings := w.handlings

/-- The handlings that have yet to pass a milestone: the job of each, and its number. -/
def Handling.awaiting (m : Milestone) (hs : List Handling) : List (Job × Nat) :=
  (hs.filter fun h => !h.phase.isPast m).map fun h => (h.job, h.id)

/-- The jobs that were taken out of the queue and whose handling has yet to pass a milestone, also where
it has yet to begin. -/
def Ledger.awaiting (m : Milestone) (L : Ledger) : List (Job × Nat) :=
  Handling.awaiting m L.handlings ++ L.held.toList.map fun job => (job, L.launched)

/-- Every handling has a number of its own, and the next number is free. -/
structure Ledger.Numbered (L : Ledger) : Prop where
  distinct : (L.handlings.map (·.id)).Nodup
  below : ∀ h ∈ L.handlings, h.id < L.launched

/-! ## Steps -/

/-- How a handling goes on, apart from a collapse: one line for each phase it can leave. -/
inductive Handling.Next (config : WorkerConfig) : Handling → Handling → Prop where
  | call {h} : h.phase = .starting → Next config h { h with phase := .calling }
  | begin {h} : h.phase = .starting ∨ h.phase = .calling → Next config h { h with phase := .running }
  | finish {h} (result) : h.phase = .running → Next config h { h with phase := .returned result }
  | report {h result request} : h.phase = .returned result → h.report? config result = some request →
      Next config h { h with phase := .reporting request }
  | skip {h result} : h.phase = .returned result → h.report? config result = none →
      Next config h { h with phase := .settling }
  | answer {h request} : h.phase = .reporting request → Next config h { h with phase := .settling }
  | discount {h} : h.phase = .settling → Next config h { h with phase := .counted }
  | release {h} : h.phase = .counted → Next config h { h with phase := .releasing }

/-- How a job changes its place, and the event of it. -/
inductive Ledger.Step (config : WorkerConfig) : Ledger → List Event → Ledger → Prop where
  | quiet {L} : Step config L [] L
  | ask {L request} : L.due = [] → request.maxJobs.toNat ≤ L.limit - L.inHand →
      Step config L [.asked request] { L with asked := some request.maxJobs.toNat }
  | hangUp {L} : L.due = [] → Step config L [] { L with asked := none }
  | receive {L n batch} : L.asked = some n → L.due = [] →
      Step config L [.received batch] { L with due := Job.ofBatch batch }
  | count {L job jobs} : L.due = job :: jobs → L.entering = none →
      Step config L [.counted job] { L with due := jobs, entering := some job, inHand := L.inHand + 1 }
  | store {L job} : L.entering = some job →
      Step config L [.queued job] { L with entering := none, queue := L.queue ++ [job] }
  | take {L job jobs} : L.queue = job :: jobs → L.held = none →
      Step config L [.taken job] { L with queue := jobs, held := some job }
  | launch {L job} : L.held = some job →
      Step config L [] { L with
        held := none
        launched := L.launched + 1
        handlings := L.handlings ++ [{ id := L.launched, job }] }
  | use {L front h back} : L.handlings = front ++ h :: back → h.phase ≠ .starting →
      Step config L [.used h.id h.phase] { L with handlings := front ++ { h with used := true } :: back }
  | advance {L front h h' back} : L.handlings = front ++ h :: back → h.Next config h' →
      Step config L [.advanced h.id h.job h.phase h'.phase] { L with
        handlings := front ++ h' :: back
        inHand := if h'.phase.isPast .discounted && !h.phase.isPast .discounted then L.inHand - 1
          else L.inHand }
  | retire {L front h back} : L.handlings = front ++ h :: back → h.phase = .releasing →
      Step config L [] { L with handlings := front ++ back }
  | collapse {L front h back} : L.handlings = front ++ h :: back → h.phase = .calling →
      Step config L [.collapsed h.id h.job] { L with handlings := front ++ back }

/-- Steps one after the other, with all their events. -/
inductive Ledger.Run (config : WorkerConfig) : Ledger → List Event → Ledger → Prop where
  | nil {L} : Run config L [] L
  | cons {L L' L'' log log'} : Step config L log L' → Run config L' log' L'' →
      Run config L (log ++ log') L''

/-! ## Induction -/

/-- What each step keeps, with the events so far as part of the state, a run keeps. -/
theorem Ledger.Run.preserves {config : WorkerConfig} {P : List Event → Ledger → Prop}
    (step : ∀ {log log' L L'}, P log L → Step config L log' L' → P (log ++ log') L')
    {L L' : Ledger} {log log' : List Event} (hP : P log L) (run : Run config L log' L') :
    P (log ++ log') L' := by
  induction run generalizing log with
  | nil => rwa [List.append_nil]
  | cons hstep _ ih =>
      rw [← List.append_assoc]
      exact ih (step hP hstep)

/-! ## Handlings that go on -/

namespace Handling.Next

variable {config : WorkerConfig} {h h' : Handling}

theorem id_eq (next : h.Next config h') : h'.id = h.id := by
  cases next <;> rfl

theorem job_eq (next : h.Next config h') : h'.job = h.job := by
  cases next <;> rfl

/-- A milestone that was passed stays passed. -/
theorem isPast_of_isPast (next : h.Next config h') {m : Milestone} (hm : h.phase.isPast m = true) :
    h'.phase.isPast m = true := by
  cases next with
  | begin hp => rcases hp with hp | hp <;> rw [hp] at hm <;> cases m <;> first | rfl | exact hm
  | call hp | finish _ hp | report hp _ | skip hp _ | answer hp | discount hp | release hp =>
      rw [hp] at hm
      cases m <;> first | rfl | exact hm

end Handling.Next

/-! ## Handlings that await a milestone -/

namespace Handling

variable {m : Milestone} {h : Handling} {hs hs' : List Handling}

@[simp] theorem awaiting_append : awaiting m (hs ++ hs') = awaiting m hs ++ awaiting m hs' := by
  rw [awaiting, List.filter_append, List.map_append]; rfl

@[simp] theorem awaiting_cons_of_isPast (hm : h.phase.isPast m = true) :
    awaiting m (h :: hs) = awaiting m hs := by
  rw [awaiting, List.filter_cons_of_neg (by rw [hm]; decide)]; rfl

@[simp] theorem awaiting_cons_of_not_isPast (hm : h.phase.isPast m = false) :
    awaiting m (h :: hs) = (h.job, h.id) :: awaiting m hs := by
  rw [awaiting, List.filter_cons_of_pos (by rw [hm]; decide)]; rfl

end Handling

/-- Only jobs that are held or handled await anything. -/
theorem Ledger.length_awaiting_le (L : Ledger) (m : Milestone) :
    (L.awaiting m).length ≤ L.handlings.length + L.held.toList.length := by
  have hfilter : (L.handlings.filter fun h => !h.phase.isPast m).length ≤ L.handlings.length :=
    List.length_filter_le _ _
  rw [awaiting, List.length_append, List.length_map, Handling.awaiting, List.length_map]
  omega

/-- What has yet to be judged has yet to be counted down. -/
theorem Ledger.awaiting_judged_subset (L : Ledger) : L.awaiting .judged ⊆ L.awaiting .discounted := by
  have hphase : ∀ phase : HandlingPhase, phase.isPast .judged = false → phase.isPast .discounted = false := by
    intro phase hjudged
    cases phase <;> first | rfl | cases hjudged
  intro x hmem
  rcases List.mem_append.mp hmem with hhandled | hheld
  · obtain ⟨h, hh, rfl⟩ := List.mem_map.mp hhandled
    obtain ⟨hh, hjudged⟩ := List.mem_filter.mp hh
    refine List.mem_append_left _ (List.mem_map.mpr ⟨h, List.mem_filter.mpr ⟨hh, ?_⟩, rfl⟩)
    rw [hphase _ (by simpa using hjudged)]
    rfl
  · exact List.mem_append_right _ hheld

/-! ## Numbers -/

namespace Ledger

variable {config : WorkerConfig} {L L' : Ledger} {log : List Event}

section Among

variable {front back : List Handling} {h h' other : Handling}

/-- A handling that goes on, among the others. -/
theorem mem_of_mem_replace (hmem : other ∈ front ++ h' :: back) : other = h' ∨ other ∈ front ++ back := by
  rcases List.mem_append.mp hmem with hfront | hback
  · exact .inr (List.mem_append_left _ hfront)
  · rcases List.mem_cons.mp hback with rfl | hback
    · exact .inl rfl
    · exact .inr (List.mem_append_right _ hback)

/-- The others were there before. -/
theorem mem_of_mem_others (hh : L.handlings = front ++ h :: back) (hmem : other ∈ front ++ back) :
    other ∈ L.handlings := by
  have hsub : (front ++ back).Sublist (front ++ h :: back) :=
    (List.sublist_cons_self h back).append_left front
  exact hh ▸ hsub.subset hmem

/-- A handling that goes on under its number leaves all numbers as they are. -/
theorem Numbered.replace (h' : Handling) (hn : L.Numbered) (hh : L.handlings = front ++ h :: back)
    (hid : h'.id = h.id) :
    ((front ++ h' :: back).map (·.id)).Nodup ∧ ∀ other ∈ front ++ h' :: back, other.id < L.launched := by
  refine ⟨?_, fun other hmem => ?_⟩
  · have distinct := hn.distinct
    rw [hh] at distinct
    simpa only [List.map_append, List.map_cons, hid] using distinct
  · rcases mem_of_mem_replace hmem with rfl | hold
    · rw [hid]
      exact hn.below h (by rw [hh]; exact List.mem_append_right _ List.mem_cons_self)
    · exact hn.below other (mem_of_mem_others hh hold)

/-- A handling that is gone leaves the numbers of the others. -/
theorem Numbered.remove (hn : L.Numbered) (hh : L.handlings = front ++ h :: back) :
    ((front ++ back).map (·.id)).Nodup ∧ ∀ other ∈ front ++ back, other.id < L.launched := by
  refine ⟨?_, fun other hmem => hn.below other (mem_of_mem_others hh hmem)⟩
  have distinct := hn.distinct
  rw [hh] at distinct
  exact distinct.sublist (((List.sublist_cons_self h back).append_left front).map _)

end Among

/-- Steps keep the numbers of handlings distinct. -/
theorem Step.numbered (hn : L.Numbered) (step : Step config L log L') : L'.Numbered := by
  cases step with
  | quiet | ask | hangUp | receive | count | store | take => exact ⟨hn.distinct, hn.below⟩
  | @launch job hheld =>
      refine ⟨?_, fun h hmem => ?_⟩
      · rw [List.map_append, List.nodup_append]
        refine ⟨hn.distinct, List.pairwise_singleton _ _, fun i hi j hj => ?_⟩
        -- the new number is above all others
        obtain ⟨h, hmem, rfl⟩ := List.mem_map.mp hi
        rw [List.map_singleton, List.mem_singleton] at hj
        exact hj ▸ Nat.ne_of_lt (hn.below h hmem)
      · rcases List.mem_append.mp hmem with hold | hnew
        · exact Nat.lt_succ_of_lt (hn.below h hold)
        · rw [List.mem_singleton.mp hnew]; exact Nat.lt_succ_self _
  | @use front h back hh _ =>
      obtain ⟨distinct, below⟩ := hn.replace { h with used := true } hh rfl
      exact ⟨distinct, below⟩
  | @advance front h h' back hh next =>
      obtain ⟨distinct, below⟩ := hn.replace h' hh next.id_eq
      exact ⟨distinct, below⟩
  | retire hh _ | collapse hh _ =>
      obtain ⟨distinct, below⟩ := hn.remove hh
      exact ⟨distinct, below⟩

end Ledger

end JobWorker
