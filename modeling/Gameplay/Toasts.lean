import Gameplay.Number.Scalar

/-!
# Toasts

Short messages shown one at a time, in the order in which they were enqueued. Time is spent on the
active toast first; what is left over is spent on the next one.
-/

namespace Gameplay

/-- A message and the time for which it is still shown. -/
structure Toast (τ : Type) where
  text : String
  remaining : τ
deriving DecidableEq, Repr

/-- The active toast and those that wait for it. -/
structure Toasts (τ : Type) where
  active : Option (Toast τ)
  queued : List (Toast τ)
deriving DecidableEq, Repr

namespace Toasts

variable {τ : Type}

def empty : Toasts τ := ⟨none, []⟩

def isEmpty (q : Toasts τ) : Bool := q.active.isNone && q.queued.isEmpty

def toList (q : Toasts τ) : List (Toast τ) := q.active.toList ++ q.queued

variable [Scalar τ]

/-- How long a toast with a wanted duration is shown: at least one millisecond, and one
millisecond if the wish is not finite. -/
def shownFor (duration : τ) : τ :=
  if Scalar.isFinite duration then Scalar.greater duration 1 else 1

/-- Adds a toast. It is active at once if none is. -/
def enqueue (q : Toasts τ) (text : String) (duration : τ) : Toasts τ :=
  let toast := ⟨text, shownFor duration⟩
  match q.active with
  | none => { q with active := some toast }
  | some _ => { q with queued := q.queued ++ [toast] }

def spend (budget : τ) (first : Toast τ) : List (Toast τ) → Toasts τ
  | [] =>
    if budget < first.remaining then ⟨some { first with remaining := first.remaining - budget }, []⟩
    else ⟨none, []⟩
  | next :: rest =>
    if budget < first.remaining then
      ⟨some { first with remaining := first.remaining - budget }, next :: rest⟩
    else spend (budget - first.remaining) next rest

/-- Lets time pass. A negative time counts as none. -/
def advance (q : Toasts τ) (elapsed : τ) : Toasts τ :=
  match q.active with
  | none => q
  | some first => spend (Scalar.greater elapsed 0) first q.queued

end Toasts

end Gameplay
