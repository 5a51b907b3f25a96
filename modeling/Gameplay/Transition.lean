import Gameplay.Document.Basic
import Gameplay.Number.Scalar

/-!
# Room transitions

A transition runs for a fixed time toward a room and hands the room back when it is over. One runs
at a time.
-/

namespace Gameplay

/-- The transition in progress; its kind is `none` while there is none. -/
structure Transition (τ : Type) where
  kind : TransitionKind
  remaining : τ
  room : Option String
deriving DecidableEq, Repr

namespace Transition

variable {τ : Type} [Scalar τ]

def idle : Transition τ := ⟨.none, 0, none⟩

/-- How long every transition takes, in milliseconds. -/
def duration : τ := Scalar.ofNat 220

def isRunning (t : Transition τ) : Bool := t.kind != .none

/-- Starts a transition; `none` if one runs or the kind is none. -/
def start? (t : Transition τ) (kind : TransitionKind) (room : String) : Option (Transition τ) :=
  if kind = .none ∨ t.isRunning then none else some ⟨kind, duration, some room⟩

/-- Lets time pass. The second part is the room, if the transition ends now. -/
def advance (t : Transition τ) (elapsed : τ) : Transition τ × Option String :=
  if t.isRunning then
    let remaining := t.remaining - Scalar.greater elapsed 0
    if 0 < remaining then ({ t with remaining := remaining }, none) else (idle, t.room)
  else (t, none)

end Transition

end Gameplay
