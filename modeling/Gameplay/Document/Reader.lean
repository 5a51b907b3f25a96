import Gameplay.Document.Fields
import Gameplay.Document.Words
import Gameplay.Json.Reader

/-!
# Reading a document

`Project.read?` turns JSON text into a project, or rejects it. A member of an enumeration is
written as its word, or as an object with that word as its only name; an item or an event names its
kind in a field of its own. Containers may lie `nesting` deep within one another, except in fields
that a record does not know, which are skipped.
-/

namespace Gameplay.Document

/-- How many containers may lie within one another. -/
def nesting : Nat := 127

/-! ### plain values -/

def readString? : Json → Option String
  | .string s => s
  | _ => none

def readBool? : Json → Option Bool
  | .bool b => some b
  | _ => none

def readFloat32? : Json → Option Float32
  | .number n => n.toFloat32?
  | _ => none

def readUInt32? : Json → Option UInt32
  | .number n => n.toInt?.bind fun i =>
    if 0 ≤ i ∧ i < twoTo 32 then some (.ofNat i.toNat) else none
  | _ => none

def readInt32? : Json → Option Int32
  | .number n => n.toInt?.bind fun i =>
    if -(twoTo 31 : Int) ≤ i ∧ i < twoTo 31 then some (.ofInt i) else none
  | _ => none

def readList? {α : Type} (read : Json → Option α) : Json → Option (List α)
  | .array items => items.mapM read
  | _ => none

def readValue? : Json → Option Value
  | .bool b => some (.bool b)
  | .number n => n.toFloat?.map .number
  | .string s => s.map .text
  | _ => none

/-- What may stand beside the word of an enumeration written as an object. -/
inductive Beside
  | null
  | nullOrEmpty
deriving DecidableEq

/-- A member of an enumeration: its word, or an object with that word as its only name. -/
def readWord? {α : Type} (words : Words α) (beside : Beside) : Json → Option α
  | .string (some word) => words.lookup word
  | .object [(some word, .null)] => words.lookup word
  | .object [(some word, .object [])] =>
    if beside = .nullOrEmpty then words.lookup word else none
  | _ => none

/-! ### operands and conditions -/

def readVariableRef? (beside : Beside) (j : Json) : Option VariableRef := do
  let fields ← fields? ["scope", "id"] j
  let scope ← fields.required "scope" (readWord? scopes beside)
  let id ← fields.required "id" readString?
  some ⟨scope, id⟩

def readLiteral? (j : Json) : Option Operand := do
  let fields ← fields? ["literal"] j
  let value ← fields.required "literal" readValue?
  some (.literal value)

def readVariableOperand? (j : Json) : Option Operand := do
  let fields ← fields? ["variable"] j
  let reference ← fields.required "variable" (readVariableRef? .null)
  some (.variable reference)

def readKey? (j : Json) : Option Operand := do
  let fields ← fields? ["key", "state"] j
  let key ← fields.required "key" readString?
  let state ← fields.optional "state" .held (readWord? keyStates .null)
  some (.key key state)

/-- An operand is an object; the first of the three forms that its fields fit wins. -/
def readOperand? : Json → Option Operand
  | .object members =>
    readLiteral? (.object members) <|> readVariableOperand? (.object members)
      <|> readKey? (.object members)
  | _ => none

def readCondition? (j : Json) : Option Condition := do
  let fields ← fields? ["left", "op", "right"] j
  let left ← fields.required "left" readOperand?
  let op ← fields.required "op" (readWord? comparisons .nullOrEmpty)
  let right ← fields.required "right" readOperand?
  some ⟨left, op, right⟩

/-! ### items -/

def readActionOf? (type : String) (content : Json) : Option Action :=
  let operand (fields : Fields) (name : String) := fields.required name readOperand?
  let reference (fields : Fields) (name : String) :=
    fields.required name (readVariableRef? .nullOrEmpty)
  let transition (fields : Fields) :=
    fields.optional "transition" .none (readWord? transitions .nullOrEmpty)
  match type with
  | "move" => do
    let f ← fields? ["dx", "dy"] content
    some (.move (← operand f "dx") (← operand f "dy"))
  | "setVelocity" => do
    let f ← fields? ["vx", "vy"] content
    some (.setVelocity (← operand f "vx") (← operand f "vy"))
  | "rotate" => do
    let f ← fields? ["degrees"] content
    some (.rotate (← operand f "degrees"))
  | "moveToward" => do
    let f ← fields? ["x", "y", "speed"] content
    some (.moveToward (← operand f "x") (← operand f "y") (← operand f "speed"))
  | "clampToRoom" => bare? .clampToRoom content
  | "teleport" => do
    let f ← fields? ["x", "y"] content
    some (.teleport (← operand f "x") (← operand f "y"))
  | "destroySelf" => bare? .destroySelf content
  | "destroyOther" => bare? .destroyOther content
  | "spawnObject" => do
    let f ← fields? ["objectId", "x", "y", "relative"] content
    some (.spawnObject (← f.required "objectId" readString?) (← operand f "x") (← operand f "y")
      (← f.optional "relative" false readBool?))
  | "changeScore" => do
    let f ← fields? ["delta"] content
    some (.changeScore (← operand f "delta"))
  | "endGame" => do
    let f ← fields? ["message"] content
    some (.endGame (← f.optional "message" "" readString?))
  | "message" => do
    let f ← fields? ["text", "durationMs"] content
    some (.message (← f.required "text" readString?) (← f.nullable "durationMs" readOperand?))
  | "playSound" => do
    let f ← fields? ["soundId"] content
    some (.playSound (← f.required "soundId" readString?))
  | "changeVariable" => do
    let f ← fields? ["target", "op", "value"] content
    some (.changeVariable (← reference f "target")
      (← f.optional "op" .set (readWord? changeOps .nullOrEmpty)) (← operand f "value"))
  | "randomizeVariable" => do
    let f ← fields? ["target", "min", "max", "integer"] content
    some (.randomizeVariable (← reference f "target") (← operand f "min") (← operand f "max")
      (← f.optional "integer" false readBool?))
  | "copyVariable" => do
    let f ← fields? ["source", "target"] content
    some (.copyVariable (← reference f "source") (← reference f "target"))
  | "goToRoom" => do
    let f ← fields? ["roomId", "transition"] content
    some (.goToRoom (← f.required "roomId" readString?) (← transition f))
  | "restartRoom" => do
    let f ← fields? ["transition"] content
    some (.restartRoom (← transition f))
  | "wait" => do
    let f ← fields? ["durationMs"] content
    some (.wait (← operand f "durationMs"))
  | "emitCustomEvent" => do
    let f ← fields? ["name"] content
    some (.emitCustomEvent (← f.required "name" readString?))
  | _ => none

def readAction? (j : Json) : Option Action := do
  let (type, content) ← tagged? "type" actionTypes true j
  readActionOf? type content

/-- An item before the items that follow it. `branch` reads the two lists of an if-block. -/
def readItem? (branch : Json → Option Script) (numbered : Bool) (j : Json) (rest : Script) :
    Option Script := do
  let (kind, content) ← tagged? "kind" itemKinds numbered j
  if kind = "action" then
    let action ← readAction? content
    some (.act action rest)
  else
    let fields ← fields? ["condition", "thenActions", "elseActions"] content
    let condition ← fields.required "condition" readCondition?
    let thens ← fields.optional "thenActions" .done branch
    let elses ← fields.optional "elseActions" .done branch
    some (.branch condition thens elses rest)

/-- A list of items within `levels` containers. The kind of an item within an if-block may be
numbered. -/
def readItems? : Nat → Bool → Json → Option Script
  | 1, _, .array [] => some .done
  | levels + 2, numbered, .array items =>
    items.foldr
      (fun item rest => rest.bind (readItem? (fun j => readItems? levels true j) numbered item))
      (some .done)
  | _, _, _ => none

/-! ### events -/

def readTriggerOf? (type : String) (content : Json) : Option Trigger :=
  match type with
  | "create" => bare? .create content
  | "step" => bare? .step content
  | "collision" => do
    let f ← fields? ["target"] content
    some (.collision (← f.required "target" readString?))
  | "custom" => do
    let f ← fields? ["name", "sourceObject"] content
    some (.custom (← f.required "name" readString?) (← f.nullable "sourceObject" readString?))
  | _ => none

/-- The items of an event, which stand at most once. -/
def readEventItems? (levels : Nat) : List (Option String × Json) → Option Script
  | [] => some .done
  | [(_, items)] => if fits levels items then readItems? levels false items else none
  | _ => none

/-- An event within `levels` containers: an object with its items and the fields of its trigger. -/
def readEvent? (levels : Nat) : Json → Option Event
  | .object members => do
    let items := members.filter fun member => member.1 == some "items"
    let others := members.filter fun member => member.1 != some "items"
    guard (fits levels (.object others))
    let script ← readEventItems? (levels - 1) items
    let (type, content) ← tagged? "type" eventTypes true (.object others)
    let trigger ← readTriggerOf? type content
    some ⟨trigger, script⟩
  | _ => none

/-! ### definitions -/

def readVariable? (j : Json) : Option Variable := do
  let f ← fields? ["id", "name", "type", "initial"] j
  some ⟨← f.required "id" readString?, ← f.optional "name" "" readString?,
    ← f.required "type" (readWord? valueTypes .null), ← f.optional "initial" default readValue?⟩

/-- An object. Its events lie within the project, the list of objects, the object and the list of
events. -/
def readObject? (j : Json) : Option ObjectDefinition := do
  let f ← fields?
    ["id", "name", "spriteId", "width", "height", "solid", "variables", "events"] j
  some ⟨← f.required "id" readString?, ← f.optional "name" "" readString?,
    ← f.nullable "spriteId" readString?, ← f.nullable "width" readFloat32?,
    ← f.nullable "height" readFloat32?, ← f.optional "solid" false readBool?,
    ← f.optional "variables" [] (readList? readVariable?),
    ← f.optional "events" [] (readList? (readEvent? (nesting - 4)))⟩

def readPlacement? (j : Json) : Option Placement := do
  let f ← fields? ["id", "objectId", "x", "y", "layer"] j
  some ⟨← f.required "id" readString?, ← f.required "objectId" readString?,
    ← f.required "x" readFloat32?, ← f.required "y" readFloat32?,
    ← f.nullable "layer" readInt32?⟩

def readRoom? (j : Json) : Option RoomDefinition := do
  let f ← fields? ["id", "name", "width", "height", "instances"] j
  some ⟨← f.required "id" readString?, ← f.optional "name" "" readString?,
    ← f.required "width" readFloat32?, ← f.required "height" readFloat32?,
    ← f.optional "instances" [] (readList? readPlacement?)⟩

def readSprite? (j : Json) : Option Sprite := do
  let f ← fields? ["id", "name", "width", "height"] j
  some ⟨← f.required "id" readString?, ← f.optional "name" "" readString?,
    ← f.required "width" readFloat32?, ← f.required "height" readFloat32?⟩

def readSound? (j : Json) : Option Sound := do
  let f ← fields? ["id", "name"] j
  some ⟨← f.required "id" readString?, ← f.optional "name" "" readString?⟩

def readProject? (j : Json) : Option Project := do
  let f ← fields? ["version", "variables", "objects", "rooms", "sprites", "sounds"] j
  some ⟨← f.optional "version" 0 readUInt32?,
    ← f.optional "variables" [] (readList? readVariable?),
    ← f.optional "objects" [] (readList? readObject?),
    ← f.optional "rooms" [] (readList? readRoom?),
    ← f.optional "sprites" [] (readList? readSprite?),
    ← f.optional "sounds" [] (readList? readSound?)⟩

end Gameplay.Document

namespace Gameplay.Project

def ofJson? (j : Json) : Option Project := Document.readProject? j

/-- The project that a JSON text describes; `none` if the text is no document. -/
def read? (text : String) : Option Project := (Json.read? text).bind ofJson?

end Gameplay.Project
