import Gameplay.Invocation

/-!
# Rooms

Entering a room creates the instances that it places. A room is entered when a run starts and when a
room change is carried out, at once or after a transition.
-/

namespace Gameplay

namespace World

variable {τ : Type}

/-- The objects of placements; fails on the first placement of an undeclared object. -/
def placementObjects (p : Program) : List Placement → Except Dangling (List (Placement × Nat))
  | [] => .ok []
  | placement :: rest =>
    match p.objectIndex? placement.objectId with
    | none => .error (.object placement.objectId)
    | some object => do
      let objects ← placementObjects p rest
      .ok ((placement, object) :: objects)

def spawnPlaced (w : World τ) (placed : List (Placement × Nat)) : World τ :=
  placed.foldl
    (fun w (placement, object) =>
      w.spawn object ⟨placement.x, placement.y⟩ ⟨some placement.id, placement.layer⟩) w

/-- Enters a room: makes it the current one and spawns its placements. If the room or the object of
a placement is not declared, nothing changes. -/
def enterRoom (w : World τ) (roomId : String) : Played τ :=
  match w.project.room? roomId with
  | none => ⟨w, .failed (.room roomId)⟩
  | some room =>
    match placementObjects w.program room.instances with
    | .error cause => ⟨w, .failed cause⟩
    | .ok placed =>
      .finished ({ w with room := some ⟨room.id, ⟨room.width, room.height⟩⟩ }.spawnPlaced placed)

/-- Leaves the current room: no instance and no pending effect remains. -/
def leaveRoom (w : World τ) : World τ := { w with instances := [], pending := .none }

def changeRoom (w : World τ) (roomId : String) : Played τ := w.leaveRoom.enterRoom roomId

/-- Removes the instances that were destroyed, then spawns those that were asked for. -/
def commit (w : World τ) : World τ :=
  let pending := w.pending
  let w := { w with
    instances := w.instances.filter fun i => !(pending.destroys.contains i.id && i.destroyed)
    pending := { pending with destroys := [], spawns := [] } }
  pending.spawns.foldr (fun s w => w.spawn s.object s.position ⟨none, none⟩) w

variable [Scalar τ]

/-- Lets the time of the tick pass for a transition; swaps rooms when it ends. -/
def stepTransition (w : World τ) : Played τ :=
  let (transition, arrived) := w.transition.advance w.clock.delta
  let w := { w with transition := transition }
  match arrived with
  | none => .finished w
  | some room => (w.changeRoom room).andThen fun w =>
      .finished { w with status := { w.status with state := .running } }

/-- Carries out the room change that is asked for: at once, or by starting a transition. -/
def followRequest (w : World τ) : Played τ :=
  match w.pending.room with
  | none => .finished w
  | some request =>
    let w := { w with pending := { w.pending with room := none } }
    if request.transition = .none then w.changeRoom request.room
    else match w.transition.start? request.transition request.room with
      | none => .finished w
      | some transition =>
        .finished { w with
          transition := transition
          status := { w.status with state := .transitioning } }

end World

end Gameplay
