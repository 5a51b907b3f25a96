import Gameplay.Number.Scalar

/-!
# Points and boxes

Geometry in the plane over any scalar: points, collision boxes, the step toward a target, keeping a
box inside a room, and angles.
-/

namespace Gameplay

structure Vec (α : Type) where
  x : α
  y : α
deriving DecidableEq, Repr

namespace Vec

variable {α : Type} [Scalar α]

def zero : Vec α := ⟨0, 0⟩

instance : Add (Vec α) := ⟨fun a b => ⟨a.x + b.x, a.y + b.y⟩⟩
instance : Sub (Vec α) := ⟨fun a b => ⟨a.x - b.x, a.y - b.y⟩⟩
instance : Neg (Vec α) := ⟨fun a => ⟨-a.x, -a.y⟩⟩

def scale (a : Vec α) (k : α) : Vec α := ⟨a.x * k, a.y * k⟩

def shrink (a : Vec α) (k : α) : Vec α := ⟨a.x / k, a.y / k⟩

def length (a : Vec α) : α := Scalar.sqrt (a.x * a.x + a.y * a.y)

def lesser (a b : Vec α) : Vec α := ⟨Scalar.lesser a.x b.x, Scalar.lesser a.y b.y⟩

def greater (a b : Vec α) : Vec α := ⟨Scalar.greater a.x b.x, Scalar.greater a.y b.y⟩

def isZero (a : Vec α) : Bool := Scalar.same a.x 0 && Scalar.same a.y 0

/-- Moves from `a` toward `target` by at most `speed`, onto the target if it is within reach. -/
def approach (a target : Vec α) (speed : α) : Vec α :=
  let delta := target - a
  let distance := delta.length
  if distance ≤ speed ∨ Scalar.same distance 0 then target
  else a + (delta.shrink distance).scale speed

end Vec

structure Box (α : Type) where
  least : Vec α
  most : Vec α
deriving DecidableEq, Repr

namespace Box

variable {α : Type} [Scalar α]

def between (a b : Vec α) : Box α := ⟨a.lesser b, a.greater b⟩

/-- Whether two boxes overlap; boxes that only touch do not. -/
def overlaps (a b : Box α) : Bool :=
  a.least.x < b.most.x && b.least.x < a.most.x && a.least.y < b.most.y && b.least.y < a.most.y

end Box

/-- A collision box beside a position. A negative size extends the box to the other side. -/
structure Collider (α : Type) where
  size : Vec α
  offset : Vec α
  solid : Bool
deriving DecidableEq, Repr

namespace Collider

variable {α : Type} [Scalar α]

/-- A box that begins at the position. -/
def ofSize (size : Vec α) (solid : Bool) : Collider α := ⟨size, .zero, solid⟩

def box (c : Collider α) (position : Vec α) : Box α :=
  let first := position + c.offset
  .between first (first + c.size)

/-- The position closest to `position` that keeps the box in a room; the least corner of the room
wins if the box is too large. -/
def confine (c : Collider α) (position room : Vec α) : Vec α :=
  let least := -c.offset
  let most := (room - c.size - c.offset).greater least
  (position.greater least).lesser most

end Collider

/-- Turns an angle, and brings it back below a full turn. -/
def turn (degrees by_ : Float32) : Float32 :=
  match Binary.ofFloat32? (degrees + by_) with
  | none => 0 / 0
  | some sum =>
    let rest := (sum.remainder 360).toFloat32
    if rest < 0 then rest + 360 else rest

end Gameplay
