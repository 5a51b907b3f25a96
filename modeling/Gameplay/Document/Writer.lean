import Gameplay.Document.Words
import Gameplay.Json.Writer

/-!
# Writing a document

Every field is written, defaults included; what is absent is `null`.
-/

namespace Gameplay

def Value.toJson : Value → Json
  | .bool b => .bool b
  | .number n => .float n
  | .text s => .text s

namespace Document

/-- A member of an enumeration is written as its word. -/
def wordJson {α : Type} [DecidableEq α] (words : Words α) (a : α) : Json := .text (words.word a)

def listJson {α : Type} (write : α → Json) (as : List α) : Json := .array (as.map write)

end Document

open Document

def VariableRef.toJson (r : VariableRef) : Json :=
  .record [("scope", wordJson scopes r.scope), ("id", .text r.id)]

def Operand.toJson : Operand → Json
  | .literal value => .record [("literal", value.toJson)]
  | .variable reference => .record [("variable", reference.toJson)]
  | .key name state => .record [("key", .text name), ("state", wordJson keyStates state)]

def Condition.toJson (c : Condition) : Json :=
  .record [("left", c.left.toJson), ("op", wordJson comparisons c.op), ("right", c.right.toJson)]

def Action.type : Action → String
  | .move .. => "move"
  | .setVelocity .. => "setVelocity"
  | .rotate .. => "rotate"
  | .moveToward .. => "moveToward"
  | .clampToRoom => "clampToRoom"
  | .teleport .. => "teleport"
  | .destroySelf => "destroySelf"
  | .destroyOther => "destroyOther"
  | .spawnObject .. => "spawnObject"
  | .changeScore .. => "changeScore"
  | .endGame .. => "endGame"
  | .message .. => "message"
  | .playSound .. => "playSound"
  | .changeVariable .. => "changeVariable"
  | .randomizeVariable .. => "randomizeVariable"
  | .copyVariable .. => "copyVariable"
  | .goToRoom .. => "goToRoom"
  | .restartRoom .. => "restartRoom"
  | .wait .. => "wait"
  | .emitCustomEvent .. => "emitCustomEvent"

def Action.fields : Action → List (String × Json)
  | .move dx dy => [("dx", dx.toJson), ("dy", dy.toJson)]
  | .setVelocity vx vy => [("vx", vx.toJson), ("vy", vy.toJson)]
  | .rotate degrees => [("degrees", degrees.toJson)]
  | .moveToward x y speed => [("x", x.toJson), ("y", y.toJson), ("speed", speed.toJson)]
  | .clampToRoom => []
  | .teleport x y => [("x", x.toJson), ("y", y.toJson)]
  | .destroySelf => []
  | .destroyOther => []
  | .spawnObject objectId x y relative =>
    [("objectId", .text objectId), ("x", x.toJson), ("y", y.toJson), ("relative", .bool relative)]
  | .changeScore delta => [("delta", delta.toJson)]
  | .endGame words => [("message", .text words)]
  | .message text duration => [("text", .text text), ("durationMs", .orNull Operand.toJson duration)]
  | .playSound soundId => [("soundId", .text soundId)]
  | .changeVariable target op value =>
    [("target", target.toJson), ("op", wordJson changeOps op), ("value", value.toJson)]
  | .randomizeVariable target min max integer =>
    [("target", target.toJson), ("min", min.toJson), ("max", max.toJson), ("integer", .bool integer)]
  | .copyVariable source target => [("source", source.toJson), ("target", target.toJson)]
  | .goToRoom roomId transition =>
    [("roomId", .text roomId), ("transition", wordJson transitions transition)]
  | .restartRoom transition => [("transition", wordJson transitions transition)]
  | .wait duration => [("durationMs", duration.toJson)]
  | .emitCustomEvent name => [("name", .text name)]

def Action.toJson (a : Action) : Json := .record (("type", .text a.type) :: a.fields)

def Script.items : Script → List Json
  | .done => []
  | .act action rest =>
    .record (("kind", .text "action") :: ("type", .text action.type) :: action.fields) :: rest.items
  | .branch condition thens elses rest =>
    .record [("kind", .text "if"), ("condition", condition.toJson),
      ("thenActions", .array thens.items), ("elseActions", .array elses.items)] :: rest.items

def Trigger.fields : Trigger → List (String × Json)
  | .create => [("type", .text "create")]
  | .step => [("type", .text "step")]
  | .collision target => [("type", .text "collision"), ("target", .text target)]
  | .custom name source =>
    [("type", .text "custom"), ("name", .text name), ("sourceObject", .orNull .text source)]

def Trigger.toJson (t : Trigger) : Json := .record t.fields

def Event.toJson (e : Event) : Json :=
  .record (e.trigger.fields ++ [("items", .array e.items.items)])

def Variable.toJson (v : Variable) : Json :=
  .record [("id", .text v.id), ("name", .text v.name), ("type", wordJson valueTypes v.type),
    ("initial", v.initial.toJson)]

def ObjectDefinition.toJson (o : ObjectDefinition) : Json :=
  .record [("id", .text o.id), ("name", .text o.name), ("spriteId", .orNull .text o.spriteId),
    ("width", .orNull .float32 o.width), ("height", .orNull .float32 o.height),
    ("solid", .bool o.solid), ("variables", listJson Variable.toJson o.declarations),
    ("events", listJson Event.toJson o.events)]

def Placement.toJson (p : Placement) : Json :=
  .record [("id", .text p.id), ("objectId", .text p.objectId), ("x", .float32 p.x),
    ("y", .float32 p.y), ("layer", .orNull (fun layer => .int layer.toInt) p.layer)]

def RoomDefinition.toJson (r : RoomDefinition) : Json :=
  .record [("id", .text r.id), ("name", .text r.name), ("width", .float32 r.width),
    ("height", .float32 r.height), ("instances", listJson Placement.toJson r.instances)]

def Sprite.toJson (s : Sprite) : Json :=
  .record [("id", .text s.id), ("name", .text s.name), ("width", .float32 s.width),
    ("height", .float32 s.height)]

def Sound.toJson (s : Sound) : Json := .record [("id", .text s.id), ("name", .text s.name)]

namespace Project

def toJson (p : Project) : Json :=
  .record [("version", .nat p.version.toNat), ("variables", listJson Variable.toJson p.declarations),
    ("objects", listJson ObjectDefinition.toJson p.objects),
    ("rooms", listJson RoomDefinition.toJson p.rooms),
    ("sprites", listJson Sprite.toJson p.sprites), ("sounds", listJson Sound.toJson p.sounds)]

def write (p : Project) : String := p.toJson.render

end Project

end Gameplay
