import Gameplay.Number.Scalar
import Gameplay.Order

/-!
# Waits

A `wait` action suspends an invocation. What is left of it is a stack of places in item lists, kept
with the time that has to pass. `Waits.advance` counts time and takes out what is due.
-/

namespace Gameplay

/-- A place in an item list: everything from position `next` on is still to be done. -/
structure Frame where
  list : Nat
  next : Nat
deriving DecidableEq, Repr

/-- A suspended invocation: the frames that are left, innermost first, and the time that has
passed. Time counts from the tick after the one that issued the wait. -/
structure Wait (τ : Type) where
  slot : Nat
  frames : List Frame
  duration : τ
  elapsed : τ
  issued : Nat
  partner : Option Nat
deriving DecidableEq, Repr

namespace Wait

variable {τ : Type} [Scalar τ]

def isDue (w : Wait τ) : Bool := decide (w.duration ≤ w.elapsed)

/-- Counts time, unless the wait was issued in this tick. -/
def age (delta : τ) (tick : Nat) (w : Wait τ) : Wait τ :=
  if w.issued = tick then w else { w with elapsed := w.elapsed + delta }

/-- Whether a wait ends in this tick. -/
def endsIn (tick : Nat) (w : Wait τ) : Bool := w.isDue && w.issued != tick

end Wait

namespace Waits

variable {τ : Type}

def suspends (waits : List (Wait τ)) (slot : Nat) : Bool := waits.any (·.slot == slot)

/-- Lets a tick pass. The first part holds the waits that end, in the order of their slots, the
second those that go on. -/
def advance [Scalar τ] (waits : List (Wait τ)) (delta : τ) (tick : Nat) :
    List (Wait τ) × List (Wait τ) :=
  let aged := waits.map (Wait.age delta tick)
  (sortOn (·.slot) (aged.filter (Wait.endsIn tick)), aged.filter fun w => !Wait.endsIn tick w)

end Waits

end Gameplay
