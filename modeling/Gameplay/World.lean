import Gameplay.Collision
import Gameplay.Keyboard
import Gameplay.Program
import Gameplay.Random
import Gameplay.Settings
import Gameplay.Toasts
import Gameplay.Transition
import Gameplay.Variables
import Gameplay.Wait

/-!
# The world of a run

Everything that a tick reads and changes. Instances are known by their ids, which are given out in
ascending order and never again within a run. What an action may not do at once is kept in
`Pending` until the tick comes to it. The journal says what the last tick did.

Times are numbers of a type `τ`, so that the same game runs on floating-point milliseconds and on
exact ones.
-/

namespace Gameplay

inductive RunState
  | idle
  | running
  | transitioning
  | stopped
deriving DecidableEq, Repr

/-- Whether ticks have an effect in a state. -/
def RunState.isLive : RunState → Bool
  | .running => true
  | .transitioning => true
  | _ => false

/-- The state of the run, and the message with which the game ended, if it did. -/
structure Status where
  state : RunState
  ended : Option String
deriving DecidableEq, Repr

namespace Status

/-- Before any run. -/
def idle : Status := ⟨.idle, none⟩

def finish (message : String) : Status := ⟨.stopped, some message⟩

end Status

structure Clock (τ : Type) where
  elapsed : τ
  delta : τ
  scale : τ
  tick : Nat
deriving DecidableEq, Repr

namespace Clock

variable {τ : Type} [Scalar τ]

def start : Clock τ := ⟨0, 0, 1, 0⟩

/-- Lets a tick of real time pass. -/
def advance (c : Clock τ) (delta : τ) : Clock τ :=
  let scaled := delta * c.scale
  ⟨c.elapsed + scaled, scaled, c.scale, c.tick + 1⟩

def seconds (c : Clock τ) : Float32 := Scalar.toFloat32 (c.delta / Scalar.ofNat 1000)

end Clock

/-- Where an instance comes from: its placement and layer, or neither if an action spawned it. -/
structure Origin where
  placement : Option String
  layer : Option Int32
deriving DecidableEq

structure Instance (τ : Type) where
  id : Nat
  object : Nat
  origin : Origin
  position : Vec Float32
  velocity : Vec Float32
  rotation : Float32
  collider : Collider Float32
  locals : Variables
  waits : List (Wait τ)
  /-- Its create events are still to come. -/
  fresh : Bool
  /-- An action has destroyed it; it is removed at the end of the tick. -/
  destroyed : Bool
deriving DecidableEq

structure CurrentRoom where
  id : String
  size : Vec Float32
deriving DecidableEq

structure Spawn where
  object : Nat
  position : Vec Float32
deriving DecidableEq

structure RoomRequest where
  room : String
  transition : TransitionKind
deriving DecidableEq, Repr

/-- A custom event, with the object that emitted it. -/
structure Emit where
  name : String
  source : String
deriving DecidableEq, Repr

/-- Effects that wait for their turn. Spawns and emits are kept the latest first. -/
structure Pending where
  destroys : List Nat
  spawns : List Spawn
  room : Option RoomRequest
  emits : List Emit
deriving DecidableEq

namespace Pending

def none : Pending := ⟨[], [], .none, []⟩

/-- Notes an instance to be removed, once. -/
def destroy (p : Pending) (id : Nat) : Pending :=
  if p.destroys.contains id then p else { p with destroys := id :: p.destroys }

def spawn (p : Pending) (s : Spawn) : Pending := { p with spawns := s :: p.spawns }

def emit (p : Pending) (e : Emit) : Pending := { p with emits := e :: p.emits }

/-- Notes a room to go to; `none` if one is noted already. -/
def claimRoom? (p : Pending) (request : RoomRequest) : Option Pending :=
  if p.room.isSome then .none else some { p with room := some request }

end Pending

/-- A run through the items of an event: the acting instance with its object, the slot of the
event, and the other instance of a collision. -/
structure Invocation where
  actor : Nat
  object : Nat
  slot : Nat
  partner : Option Nat
deriving DecidableEq, Repr

/-- Something that happened in a tick. -/
inductive Happening (τ : Type)
  | started (invocation : Invocation)
  | resumed (invocation : Invocation) (wait : Wait τ)
  | performed (invocation : Invocation) (action : Action)
  | suspended (invocation : Invocation) (wait : Wait τ)
  | handled (emits : List Emit)
deriving DecidableEq

/-- The state of a run. Sounds that nobody has taken yet and the happenings of the last tick are kept
the latest first. -/
structure World (τ : Type) where
  settings : Settings
  project : Project
  program : Program
  clock : Clock τ
  status : Status
  keys : Keyboard
  toasts : Toasts τ
  transition : Transition τ
  room : Option CurrentRoom
  globals : Variables
  score : Float
  random : Random
  lastId : Nat
  instances : List (Instance τ)
  pending : Pending
  sounds : List String
  journal : List (Happening τ)
deriving DecidableEq

namespace World

variable {τ : Type}

def initial [Scalar τ] (settings : Settings) (random : Random) : World τ where
  settings := settings
  project := .empty
  program := .empty
  clock := .start
  status := .idle
  keys := .empty
  toasts := .empty
  transition := .idle
  room := none
  globals := .empty
  score := 0
  random := random
  lastId := 0
  instances := []
  pending := .none
  sounds := []
  journal := []

/-! ### instances -/

/-- The instance of an id, also if it is destroyed. -/
def instance? (w : World τ) (id : Nat) : Option (Instance τ) := w.instances.find? (·.id == id)

def modify (w : World τ) (id : Nat) (f : Instance τ → Instance τ) : World τ :=
  { w with instances := w.instances.map fun i => if i.id = id then f i else i }

/-- The instances that are not destroyed, ascending by id. -/
def live (w : World τ) : List (Instance τ) := sortOn (·.id) (w.instances.filter fun i => !i.destroyed)

def isDestroyed (w : World τ) (id : Nat) : Bool := (w.instance? id).any (·.destroyed)

def isSuspended (w : World τ) (id slot : Nat) : Bool :=
  (w.instance? id).any fun i => Waits.suspends i.waits slot

/-- Destroys an instance. It is removed at the end of the tick. -/
def destroy (w : World τ) (id : Nat) : World τ :=
  { w.modify id fun i => { i with destroyed := true } with pending := w.pending.destroy id }

def nextId (lastId : Nat) : Nat := lastId + 1

/-- A new instance of an object, with the next id. -/
def spawn (w : World τ) (object : Nat) (position : Vec Float32) (origin : Origin) : World τ :=
  match w.program.object? object with
  -- a number that was found in the program is a number of the program
  | none => w
  | some o =>
    let id := nextId w.lastId
    { w with
      lastId := id
      instances := w.instances ++
        [{ id := id
           object := object
           origin := origin
           position := position
           velocity := .zero
           rotation := 0
           collider := .ofSize o.size o.solid
           locals := .ofDeclarations o.declarations
           waits := []
           fresh := true
           destroyed := false }] }

def note (w : World τ) (h : Happening τ) : World τ := { w with journal := h :: w.journal }

def happenings (w : World τ) : List (Happening τ) := w.journal.reverse

/-! ### variables and operands -/

/-- The variables of a scope, as an instance sees them. -/
def scope? (w : World τ) (actor : Nat) : Scope → Option Variables
  | .global => some w.globals
  | .object => (w.instance? actor).map (·.locals)

def lookup (w : World τ) (actor : Nat) (r : VariableRef) : Except Dangling Binding :=
  match (w.scope? actor r.scope).bind (·.binding? r.id) with
  | some b => .ok b
  | none => .error (.variable r.scope r.id)

def assign (w : World τ) (actor : Nat) (r : VariableRef) (value : Value) :
    Except Dangling (World τ) :=
  match (w.scope? actor r.scope).bind (·.assign? r.id value) with
  | none => .error (.variable r.scope r.id)
  | some vars =>
    match r.scope with
    | .global => .ok { w with globals := vars }
    | .object => .ok (w.modify actor fun i => { i with locals := vars })

def resolve (w : World τ) (actor : Nat) : Operand → Except Dangling Value
  | .literal value => .ok value
  | .variable r => (w.lookup actor r).map (·.value)
  | .key name state => .ok (.bool (w.keys.query name state))

def number (w : World τ) (actor : Nat) (o : Operand) : Except Dangling Float :=
  (w.resolve actor o).map Value.toNumber

def point (w : World τ) (actor : Nat) (x y : Operand) : Except Dangling (Vec Float32) := do
  let x ← w.number actor x
  let y ← w.number actor y
  .ok ⟨narrow x, narrow y⟩

def holds (w : World τ) (actor : Nat) (c : Condition) : Except Dangling Bool := do
  let left ← w.resolve actor c.left
  let right ← w.resolve actor c.right
  .ok (left.compare c.op right)

end World

end Gameplay
