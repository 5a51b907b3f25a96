import Gameplay.Dangling
import Gameplay.Geometry

/-!
# Compiled programs

A script nests lists of items within if-blocks. A program lays all lists out flat: an item is a
numbered node, an ordered list of items is a numbered list of nodes, and an if-block names its two
lists. A place in a script is then a list number and a position, which a wait can keep.

Numbers are given out in one order: the lists within an if-block before the block itself, and a
list after all its items. So a node refers only to lists numbered before the list it stands in.
-/

namespace Gameplay

/-- An item of a compiled list. The branches are list numbers. -/
inductive Node
  | act (action : Action)
  | branch (condition : Condition) (thens elses : Nat)
deriving DecidableEq

/-- The nodes by number, and the lists of node numbers by number. -/
structure Arena where
  nodes : Array Node
  lists : Array (List Nat)
deriving DecidableEq

namespace Arena

def empty : Arena := ⟨#[], #[]⟩

def list (a : Arena) (n : Nat) : List Nat := a.lists[n]?.getD []

/-- Adds a list; its number is the number of lists before it. -/
def addList (a : Arena) (items : List Nat) : Arena × Nat :=
  ({ a with lists := a.lists.push items }, a.lists.size)

/-- Lays out the items of a script; gives their numbers in order. -/
def addItems (a : Arena) : Script → Arena × List Nat
  | .done => (a, [])
  | .act action rest =>
    let n := a.nodes.size
    let (a, items) := addItems { a with nodes := a.nodes.push (.act action) } rest
    (a, n :: items)
  | .branch condition thens elses rest =>
    let (a, items) := addItems a thens
    let (a, thenList) := a.addList items
    let (a, items) := addItems a elses
    let (a, elseList) := a.addList items
    let n := a.nodes.size
    let node := .branch condition thenList elseList
    let (a, items) := addItems { a with nodes := a.nodes.push node } rest
    (a, n :: items)

def addScript (a : Arena) (script : Script) : Arena × Nat :=
  let (a, items) := a.addItems script
  a.addList items

end Arena

/-- An event with the number of its list. -/
structure CompiledEvent where
  trigger : Trigger
  body : Nat
deriving DecidableEq

/-- An object with its size decided. The position of an event is its slot. -/
structure CompiledObject where
  id : String
  name : String
  solid : Bool
  size : Vec Float32
  declarations : List Variable
  events : List CompiledEvent
deriving DecidableEq

/-- The slots of the events with a certain trigger, ascending. -/
def CompiledObject.slots (o : CompiledObject) (wanted : Trigger → Bool) : List Nat :=
  (o.events.zipIdx.filter fun (e, _) => wanted e.trigger).map (·.2)

/-- The compiled objects of a project and the arena of all their events. -/
structure Program where
  arena : Arena
  objects : List CompiledObject
deriving DecidableEq

/-- The position of the last element that satisfies a predicate. -/
def lastIndex? {α : Type} (p : α → Bool) : List α → Option Nat
  | [] => none
  | a :: as =>
    match lastIndex? p as with
    | some i => some (i + 1)
    | none => if p a then some 0 else none

def Project.declaresObject (p : Project) (id : String) : Bool := p.objects.any (·.id == id)

namespace Program

def empty : Program := ⟨.empty, []⟩

/-- The number of the object of an id; of several it is the last. -/
def objectIndex? (p : Program) (id : String) : Option Nat := lastIndex? (·.id == id) p.objects

def object? (p : Program) (n : Nat) : Option CompiledObject := p.objects[n]?

def body? (p : Program) (object slot : Nat) : Option Nat :=
  ((p.object? object).bind (·.events[slot]?)).map (·.body)

def triggerObject? : Trigger → Option String
  | .collision target => some target
  | .custom _ source => source
  | _ => none

def checkTrigger (project : Project) (t : Trigger) : Except Dangling Unit :=
  match triggerObject? t with
  | some id => if project.declaresObject id then .ok () else .error (.object id)
  | none => .ok ()

/-- The size of an object: on each axis its own, or its sprite's, or the default. -/
def objectSize (project : Project) (default : Vec Float32) (o : ObjectDefinition) :
    Except Dangling (Vec Float32) :=
  match o.spriteId with
  | none => .ok ⟨o.width.getD default.x, o.height.getD default.y⟩
  | some id =>
    match project.sprite? id with
    | none => .error (.sprite id)
    | some sprite => .ok ⟨o.width.getD sprite.width, o.height.getD sprite.height⟩

def compileEvents (project : Project) : Arena → List Event →
    Except Dangling (Arena × List CompiledEvent)
  | a, [] => .ok (a, [])
  | a, e :: es => do
    checkTrigger project e.trigger
    let (a, body) := a.addScript e.items
    let (a, events) ← compileEvents project a es
    .ok (a, ⟨e.trigger, body⟩ :: events)

def compileObjects (project : Project) (default : Vec Float32) : Arena → List ObjectDefinition →
    Except Dangling (Arena × List CompiledObject)
  | a, [] => .ok (a, [])
  | a, o :: os => do
    let size ← objectSize project default o
    let (a, events) ← compileEvents project a o.events
    let (a, objects) ← compileObjects project default a os
    .ok (a, ⟨o.id, o.name, o.solid, size, o.declarations, events⟩ :: objects)

/-- Compiles a project. Objects with neither a size nor a sprite get the default size. The first
dangling sprite or object reference, in the order of the document, is the error. -/
def compile (project : Project) (default : Vec Float32) : Except Dangling Program := do
  let (arena, objects) ← compileObjects project default .empty project.objects
  .ok ⟨arena, objects⟩

end Program

end Gameplay
