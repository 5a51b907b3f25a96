import Gameplay.Collision
import Gameplay.Program

/-!
# Blocked placements

An editor asks whether a placement would collide with the placements of a room, by the same rule as
a running game.
-/

namespace Gameplay

def Program.placementBody (p : Program) (id : Nat) (placement : Placement) :
    Except Dangling (Body Float32) :=
  match (p.objectIndex? placement.objectId).bind p.object? with
  | none => .error (.object placement.objectId)
  | some o => .ok ⟨id, ⟨placement.x, placement.y⟩, .ofSize o.size o.solid⟩

/-- The bodies of placements, numbered from a number on. -/
def Program.placementBodies (p : Program) : Nat → List Placement →
    Except Dangling (List (Body Float32))
  | _, [] => .ok []
  | id, placement :: rest => do
    let body ← p.placementBody id placement
    let bodies ← p.placementBodies (id + 1) rest
    .ok (body :: bodies)

/-- Whether a candidate would collide with a placement of a room. The last placement of the
excluded id is left out. The candidate has number zero and the placements are numbered from one. -/
def Project.blocks (project : Project) (roomId : String) (candidate : Placement)
    (exclude : Option String) (default : Vec Float32) : Except Dangling Bool := do
  match project.room? roomId with
  | none => .error (.room roomId)
  | some room =>
    let program ← Program.compile project default
    let others ← program.placementBodies 1 room.instances
    let body ← program.placementBody 0 candidate
    let excluded := exclude.bind fun id =>
      (lastIndex? (fun placement => placement.id == id) room.instances).map (· + 1)
    .ok (body.blocked others excluded)

end Gameplay
