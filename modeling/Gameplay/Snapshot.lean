import Gameplay.Document.Writer
import Gameplay.Game

/-!
# Snapshots

What a renderer sees of a game between ticks. Destroyed instances are not seen.
-/

namespace Gameplay

structure InstanceView where
  id : Nat
  objectId : String
  origin : Origin
  position : Vec Float32
  size : Vec Float32
  velocity : Vec Float32
  rotation : Float32
  locals : List (String × Value)
  suspended : Nat
deriving DecidableEq

structure Snapshot (τ : Type) where
  state : RunState
  tick : Nat
  elapsed : τ
  score : Float
  room : Option String
  instances : List InstanceView
  globals : List (String × Value)
  toasts : Toasts τ
  transition : TransitionKind
  transitionLeft : τ
  ended : Option String
  faults : Nat
deriving DecidableEq

namespace World

variable {τ : Type}

def view (w : World τ) (i : Instance τ) : InstanceView where
  id := i.id
  objectId := ((w.program.object? i.object).map (·.id)).getD ""
  origin := i.origin
  position := i.position
  size := i.collider.size
  velocity := i.velocity
  rotation := i.rotation
  locals := i.locals.toSorted
  suspended := i.waits.length

end World

def Game.snapshot {τ : Type} (g : Game τ) : Snapshot τ where
  state := g.world.status.state
  tick := g.world.clock.tick
  elapsed := g.world.clock.elapsed
  score := g.world.score
  room := g.world.room.map (·.id)
  instances := g.world.live.map g.world.view
  globals := g.world.globals.toSorted
  toasts := g.world.toasts
  transition := g.world.transition.kind
  transitionLeft := g.world.transition.remaining
  ended := g.world.status.ended
  faults := g.faults

/-! ### as JSON -/

def RunState.word : RunState → String
  | .idle => "idle"
  | .running => "running"
  | .transitioning => "transitioning"
  | .stopped => "stopped"

def valuesJson (values : List (String × Value)) : Json :=
  .record (values.map fun (id, value) => (id, value.toJson))

def Toast.toJson (t : Toast Float) : Json :=
  .record [("text", .text t.text), ("remainingMs", .float t.remaining)]

def Toasts.toJson (q : Toasts Float) : Json :=
  .record [("active", .orNull Toast.toJson q.active), ("queued", Document.listJson Toast.toJson q.queued)]

def InstanceView.toJson (i : InstanceView) : Json :=
  .record [("id", .nat i.id), ("objectId", .text i.objectId),
    ("placementId", .orNull .text i.origin.placement),
    ("layer", .orNull (fun layer => .int layer.toInt) i.origin.layer),
    ("x", .float32 i.position.x), ("y", .float32 i.position.y),
    ("width", .float32 i.size.x), ("height", .float32 i.size.y),
    ("velocityX", .float32 i.velocity.x), ("velocityY", .float32 i.velocity.y),
    ("rotation", .float32 i.rotation), ("variables", valuesJson i.locals),
    ("suspended", .nat i.suspended)]

def Snapshot.toJson (s : Snapshot Float) : Json :=
  .record [("state", .text s.state.word), ("frame", .nat s.tick), ("elapsedMs", .float s.elapsed),
    ("score", .float s.score), ("room", .orNull .text s.room),
    ("instances", Document.listJson InstanceView.toJson s.instances),
    ("globals", valuesJson s.globals), ("toast", s.toasts.toJson),
    ("transition", .record [("kind", Document.wordJson Document.transitions s.transition),
      ("remainingMs", .float s.transitionLeft)]),
    ("ended", .orNull .text s.ended), ("errorCount", .nat s.faults)]

end Gameplay
