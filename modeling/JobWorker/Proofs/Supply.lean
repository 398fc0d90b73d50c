import JobWorker.Deployment
import JobWorker.Proofs.History

/-!
# `JobWorker.Proofs.Supply` — where jobs are before a worker receives them

A scripted job is pending at the gateway until its batch is served to a call; then it is on the link, batch by
batch, until the poller receives it or the call is cut off. A *supply* keeps these places, and `Supply.Step`
lists the ways in which a job leaves one: a batch is served whole or cut, a response is received, a cut call
loses what is on its link. `Supply.Accounted` says that nothing else happens to a job: what was scripted is what
was received, what is on the link, what was lost and what is pending, in this order.

## Contents
- **Handing out.** `handTo`: a served job bears the name of the worker.
- **The supply.** `Link.batches`, `Supply`, `Deployment.supply`, `Supply.Step`.
- **The account.** `Supply.IsPiece`, `Supply.Accounted`, `Supply.Step.accounted`.
-/

namespace JobWorker

/-! ## Handing out -/

/-- A batch as it is handed out to the worker of this name. -/
def handTo (name : String) (batch : Batch) : Batch :=
  batch.map fun job => { job with worker := name }

/-! ## The supply -/

/-- The responses that were served to a call and not yet received. -/
def Link.batches : Link → List Batch
  | .idle           => []
  | .opening call   =>
    match call.phase with
    | .answered (.ok responses) => responses
    | _                         => []
  | .streaming rest => rest

/-- What is pending at the gateway, what is on the link, whether the poller has stopped, and whether the token
of the worker has fired. -/
structure Supply where
  pending : List Batch
  onLink : List Batch
  stopped : Bool
  cancelled : Bool

/-- The supply of a deployment. -/
def Deployment.supply (d : Deployment) : Supply where
  pending := d.gateway.batches
  onLink := d.link.batches
  stopped := d.worker.poller.isStopped
  cancelled := d.worker.cancelled

/-- How a job changes its place, with what is scripted, received and lost thereby. -/
inductive Supply.Step (name : String) :
    Supply → List Batch → List WireJob → List WireJob → Supply → Prop where
  | quiet {S} : Step name S [] [] [] S
  | script {S} (batch) : Step name S [batch] [] [] { S with pending := S.pending ++ [batch] }
  | cancel {S} : Step name S [] [] [] { S with cancelled := true }
  | serve {S batch later} : S.stopped = false → S.onLink = [] → S.pending = batch :: later →
      Step name S [] [] [] { S with pending := later, onLink := [handTo name batch] }
  | cut {S batch later} (n) : S.stopped = false → S.onLink = [] → S.pending = batch :: later →
      Step name S [] [] [] { S with
        pending := batch.drop n :: later
        onLink := [handTo name (batch.take n)] }
  | receive {S batch rest} : S.stopped = false → S.onLink = batch :: rest →
      Step name S [] batch [] { S with onLink := rest }
  | stop {S} : S.stopped = false → S.onLink = [] → Step name S [] [] [] { S with stopped := true }
  | lose {S} : S.stopped = false → S.cancelled = true →
      Step name S [] [] S.onLink.flatten { S with onLink := [], stopped := true }

/-! ## The account -/

namespace Supply

/-- Nothing at all, or jobs that stand next to each other in one scripted batch. -/
def IsPiece (name : String) (script : List Batch) (piece : List WireJob) : Prop :=
  piece = [] ∨ ∃ batch ∈ script, piece <:+: handTo name batch

/-- What was scripted, against what was received, what was lost, and where the rest is. -/
structure Accounted (name : String) (script : List Batch) (received lost : List WireJob) (S : Supply) :
    Prop where
  whole : (script.map (handTo name)).flatten =
    received ++ S.onLink.flatten ++ lost ++ (S.pending.map (handTo name)).flatten
  single : S.onLink.length ≤ 1
  linkPieces : ∀ batch ∈ S.onLink, IsPiece name script batch
  pendingPieces : ∀ batch ∈ S.pending, IsPiece name script (handTo name batch)
  lostPiece : IsPiece name script lost
  excuse : lost = [] ∨ S.stopped = true ∧ S.cancelled = true

section Steps

variable {name : String} {script added : List Batch} {received lost piece : List WireJob} {S S' : Supply}

theorem IsPiece.nil : IsPiece name script [] := .inl rfl

/-- What is scripted later leaves pieces what they are. -/
theorem IsPiece.append (h : IsPiece name script piece) : IsPiece name (script ++ added) piece := by
  rcases h with h | ⟨batch, hmem, h⟩
  · exact .inl h
  · exact .inr ⟨batch, List.mem_append_left _ hmem, h⟩

/-- A part of a piece is a piece. -/
theorem IsPiece.part (h : IsPiece name script piece) {part : List WireJob} (hpart : part <:+: piece) :
    IsPiece name script part := by
  rcases h with rfl | ⟨batch, hmem, h⟩
  · exact .inl (List.infix_nil.mp hpart)
  · exact .inr ⟨batch, hmem, hpart.trans h⟩

/-- A cut batch is handed out as it would be whole. -/
theorem handTo_take_append_drop (batch : Batch) (n : Nat) :
    handTo name (batch.take n) ++ handTo name (batch.drop n) = handTo name batch := by
  rw [handTo, handTo, handTo, ← List.map_append, List.take_append_drop]

/-- Nothing is lost before the poller stops. -/
theorem Accounted.lost_eq_nil (h : Accounted name script received lost S) (hS : S.stopped = false) :
    lost = [] := by
  rcases h.excuse with hlost | ⟨hstopped, -⟩
  · exact hlost
  · rw [hS] at hstopped; cases hstopped

/-- What is on the link is one piece. -/
theorem Accounted.flatten_onLink (h : Accounted name script received lost S) :
    IsPiece name script S.onLink.flatten := by
  have single := h.single
  have pieces := h.linkPieces
  cases hlink : S.onLink with
  | nil => exact .nil
  | cons batch rest =>
      rw [hlink] at single pieces
      have hrest : rest = [] := List.length_eq_zero_iff.mp (Nat.le_zero.mp (Nat.le_of_succ_le_succ single))
      rw [hrest, List.flatten_singleton]
      exact pieces batch List.mem_cons_self

/-- Serving a batch keeps the account, whether or not it is cut: `served` goes on the link, `kept` stays. -/
theorem Accounted.serve {served batch : Batch} {later : List Batch} (kept : List Batch)
    (h : Accounted name script received lost S) (hS : S.stopped = false) (hlink : S.onLink = [])
    (hpending : S.pending = batch :: later)
    (hsplit : handTo name served ++ (kept.map (handTo name)).flatten = handTo name batch) :
    Accounted name script received lost
      { S with pending := kept ++ later, onLink := [handTo name served] } := by
  have hbatch : IsPiece name script (handTo name batch) :=
    h.pendingPieces batch (hpending ▸ List.mem_cons_self)
  refine ⟨?_, Nat.le_refl 1, ?_, ?_, h.lostPiece, h.excuse⟩
  · rw [h.whole, hlink, hpending, h.lost_eq_nil hS, List.map_cons, List.flatten_cons, ← hsplit]
    simp
  · intro other hmem
    rw [List.mem_singleton.mp hmem]
    exact hbatch.part (hsplit ▸ (List.prefix_append _ _).isInfix)
  · intro other hmem
    rcases List.mem_append.mp hmem with hkept | hlater
    · refine hbatch.part (List.IsInfix.trans ?_ (hsplit ▸ (List.suffix_append _ _).isInfix))
      exact List.infix_of_mem_flatten (List.mem_map_of_mem hkept)
    · exact h.pendingPieces other (hpending ▸ List.mem_cons_of_mem _ hlater)

/-- **Every step keeps the account.** -/
theorem Step.accounted {received' lost' : List WireJob} (step : Step name S added received' lost' S')
    (h : Accounted name script received lost S) :
    Accounted name (script ++ added) (received ++ received') (lost ++ lost') S' := by
  cases step with
  | quiet =>
      simp only [List.append_nil]
      exact h
  | cancel =>
      simp only [List.append_nil]
      exact { h with excuse := h.excuse.imp_right fun excuse => ⟨excuse.1, rfl⟩ }
  | script batch =>
      refine ⟨?_, h.single, fun b hmem => (h.linkPieces b hmem).append, ?_, ?_, ?_⟩
      · simp [h.whole]
      · intro b hmem
        rcases List.mem_append.mp hmem with hold | hnew
        · exact (h.pendingPieces b hold).append
        · exact .inr ⟨b, List.mem_append_right _ hnew, List.infix_refl _⟩
      · rw [List.append_nil]
        exact h.lostPiece.append
      · rw [List.append_nil]
        exact h.excuse
  | serve hS hlink hpending =>
      simp only [List.append_nil]
      exact h.serve [] hS hlink hpending (List.append_nil _)
  | @cut batch later n hS hlink hpending =>
      simp only [List.append_nil]
      refine h.serve [batch.drop n] hS hlink hpending ?_
      rw [List.map_singleton, List.flatten_singleton, handTo_take_append_drop]
  | @receive batch rest hS hlink =>
      -- the one batch on the link is the next one in the order of the script
      have single := h.single
      have pieces := h.linkPieces
      rw [hlink] at single pieces
      simp only [List.append_nil]
      refine ⟨?_, Nat.le_of_succ_le single, fun b hmem => pieces b (List.mem_cons_of_mem _ hmem),
        h.pendingPieces, h.lostPiece, h.excuse⟩
      rw [h.whole, hlink]
      simp
  | stop hS hlink =>
      -- a poller that stops by itself leaves nothing on the link, and no excuse is needed
      have hlost := h.lost_eq_nil hS
      simp only [List.append_nil]
      exact { h with excuse := .inl hlost }
  | lose hS hcancelled =>
      -- what was on the link is the piece that is lost
      have hlost := h.lost_eq_nil hS
      simp only [hlost, List.append_nil, List.nil_append]
      refine ⟨?_, Nat.zero_le 1, (fun _ hmem => nomatch hmem), h.pendingPieces, h.flatten_onLink,
        .inr ⟨rfl, hcancelled⟩⟩
      rw [h.whole, hlost]
      simp

end Steps

end Supply

end JobWorker
