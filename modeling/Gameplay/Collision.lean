import Gameplay.Geometry

/-!
# Collisions

Two bodies collide when one of them is solid and their boxes overlap in more than an edge. The
pairs are listed in both orders, ascending.
-/

namespace Gameplay

/-- The room that a body takes up. -/
structure Block (α : Type) where
  box : Box α
  solid : Bool
deriving DecidableEq, Repr

namespace Block

variable {α : Type} [Scalar α]

def eligible (a b : Block α) : Bool := a.solid || b.solid

def collides (a b : Block α) : Bool := a.eligible b && a.box.overlaps b.box

end Block

structure Body (α : Type) where
  id : Nat
  position : Vec α
  collider : Collider α
deriving DecidableEq, Repr

namespace Body

variable {α : Type} [Scalar α]

def block (b : Body α) : Block α := ⟨b.collider.box b.position, b.collider.solid⟩

/-- Whether a body would collide with one of the others, itself and an excluded one left out. -/
def blocked (candidate : Body α) (others : List (Body α)) (excluded : Option Nat) : Bool :=
  others.any fun other =>
    other.id != candidate.id && some other.id != excluded && candidate.block.collides other.block

end Body

/-- The pairs `(i, j)` of different positions in a list of bodies that collide, in ascending
order. -/
def collidingPairs {α : Type} [Scalar α] (bodies : List (Body α)) : List (Nat × Nat) :=
  let blocks := (bodies.map Body.block).zipIdx
  blocks.flatMap fun (a, i) =>
    (blocks.filter fun (b, j) => i != j && a.collides b).map fun (_, j) => (i, j)

end Gameplay
