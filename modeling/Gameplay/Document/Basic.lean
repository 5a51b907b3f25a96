import Gameplay.Value

/-!
# The document of a game

A project declares variables, objects, rooms, sprites and sounds. An object reacts to events, and
what it does then is a `Script`: actions and if-blocks in order. A script is one inductive type,
in which each item holds the items after it, so that a walk over a script is a structural
recursion.
-/

namespace Gameplay

structure Variable where
  id : String
  name : String
  type : ValueType
  initial : Value
deriving DecidableEq

/-- Where a variable is looked up. -/
inductive Scope
  | global
  | object
deriving DecidableEq, Repr

def Scope.word : Scope → String
  | .global => "global"
  | .object => "object"

structure VariableRef where
  scope : Scope
  id : String
deriving DecidableEq, Repr

/-- What an operand asks about a key. -/
inductive KeyState
  | held
  | pressed
  | released
deriving DecidableEq, Repr

/-- A side of a condition, or a field of an action. -/
inductive Operand
  | literal (value : Value)
  | variable (reference : VariableRef)
  | key (key : String) (state : KeyState)
deriving DecidableEq

structure Condition where
  left : Operand
  op : Comparison
  right : Operand
deriving DecidableEq

/-- The animation between two rooms. -/
inductive TransitionKind
  | none
  | fade
  | slideLeft
  | slideRight
deriving DecidableEq, Repr

instance : Inhabited TransitionKind := ⟨.none⟩

/-- An effect that a script can have. -/
inductive Action
  | move (dx dy : Operand)
  | setVelocity (vx vy : Operand)
  | rotate (degrees : Operand)
  | moveToward (x y speed : Operand)
  | clampToRoom
  | teleport (x y : Operand)
  | destroySelf
  | destroyOther
  | spawnObject (objectId : String) (x y : Operand) (relative : Bool)
  | changeScore (delta : Operand)
  | endGame (message : String)
  | message (text : String) (duration : Option Operand)
  | playSound (soundId : String)
  | changeVariable (target : VariableRef) (op : ChangeOp) (value : Operand)
  | randomizeVariable (target : VariableRef) (min max : Operand) (integer : Bool)
  | copyVariable (source target : VariableRef)
  | goToRoom (roomId : String) (transition : TransitionKind)
  | restartRoom (transition : TransitionKind)
  | wait (duration : Operand)
  | emitCustomEvent (name : String)
deriving DecidableEq

/-- An ordered list of items: nothing, or an action or an if-block and the items after it. -/
inductive Script
  | done
  | act (action : Action) (rest : Script)
  | branch (condition : Condition) (thens elses : Script) (rest : Script)
deriving DecidableEq

instance : Inhabited Script := ⟨.done⟩

/-- What starts an event. A custom event may ask for an emitter of one object. -/
inductive Trigger
  | create
  | step
  | collision (target : String)
  | custom (name : String) (source : Option String)
deriving DecidableEq, Repr

structure Event where
  trigger : Trigger
  items : Script
deriving DecidableEq

structure ObjectDefinition where
  id : String
  name : String
  spriteId : Option String
  width : Option Float32
  height : Option Float32
  solid : Bool
  declarations : List Variable
  events : List Event
deriving DecidableEq

/-- An instance that a room places. -/
structure Placement where
  id : String
  objectId : String
  x : Float32
  y : Float32
  layer : Option Int32
deriving DecidableEq

structure RoomDefinition where
  id : String
  name : String
  width : Float32
  height : Float32
  instances : List Placement
deriving DecidableEq

/-- A sprite, of which only the size matters. -/
structure Sprite where
  id : String
  name : String
  width : Float32
  height : Float32
deriving DecidableEq

structure Sound where
  id : String
  name : String
deriving DecidableEq, Repr

/-- The document of a game. -/
structure Project where
  version : UInt32
  declarations : List Variable
  objects : List ObjectDefinition
  rooms : List RoomDefinition
  sprites : List Sprite
  sounds : List Sound
deriving DecidableEq

namespace Project

def empty : Project := ⟨0, [], [], [], [], []⟩

def room? (p : Project) (id : String) : Option RoomDefinition := p.rooms.find? (·.id == id)

def sprite? (p : Project) (id : String) : Option Sprite := p.sprites.find? (·.id == id)

end Project

end Gameplay
