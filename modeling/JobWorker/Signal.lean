/-!
# `JobWorker.Signal` — wake-ups that are not lost

A signal wakes the waiter that has waited longest. Where nobody waits it keeps at most one wake-up, which
the next to wait takes at once. A waiter that was woken and leaves without having noticed passes its wake-up
on.

## Contents
- **The type.** `Signal`: the stored wake-up, those who wait in order, those who are woken.
- **Operations.** `notify`, `wait`, `take?`, `leave`.
-/

namespace JobWorker

/-- A signal with waiters named by `ι`. -/
structure Signal (ι : Type) where
  stored : Bool := false
  waiting : List ι := []
  woken : List ι := []
deriving DecidableEq, Repr

namespace Signal

variable {ι : Type} [DecidableEq ι]

/-- Wakes the longest waiter, or stores a wake-up. -/
def notify (s : Signal ι) : Signal ι :=
  match s.waiting with
  | []      => { s with stored := true }
  | w :: ws => { s with waiting := ws, woken := s.woken ++ [w] }

/-- Begins to wait: takes the stored wake-up at once (`true`), or joins the line. -/
def wait (w : ι) (s : Signal ι) : Signal ι × Bool :=
  if s.stored then ({ s with stored := false }, true)
  else ({ s with waiting := s.waiting ++ [w] }, false)

/-- Notices a wake-up, if there is one for this waiter. -/
def take? (w : ι) (s : Signal ι) : Option (Signal ι) :=
  if w ∈ s.woken then some { s with woken := s.woken.erase w } else none

/-- Stops waiting; a wake-up that was not noticed goes to the next. -/
def leave (w : ι) (s : Signal ι) : Signal ι :=
  if w ∈ s.woken then notify { s with woken := s.woken.erase w }
  else { s with waiting := s.waiting.erase w }

end Signal

end JobWorker
