import Gameplay.Document.Basic
import Gameplay.Order

/-!
# Variables

The variables of a scope are declared once, with a type each, and are assigned to afterwards. An
assignment coerces to the declared type and never declares anything.
-/

namespace Gameplay

/-- A variable with its type and its current value. -/
structure Binding where
  id : String
  type : ValueType
  value : Value
deriving DecidableEq

/-- The variables of a scope, each id once. -/
structure Variables where
  bindings : List Binding
deriving DecidableEq

namespace Variables

def empty : Variables := ⟨[]⟩

/-- Declares a variable; a second declaration of an id replaces the first. -/
def declare (bindings : List Binding) (b : Binding) : List Binding :=
  if bindings.any (·.id == b.id) then bindings.map fun a => if a.id == b.id then b else a
  else bindings ++ [b]

/-- The variables of a list of declarations, with their initial values coerced. -/
def ofDeclarations (declarations : List Variable) : Variables :=
  ⟨declarations.foldl (fun bindings v => declare bindings ⟨v.id, v.type, v.initial.coerce v.type⟩) []⟩

def binding? (vars : Variables) (id : String) : Option Binding := vars.bindings.find? (·.id == id)

def get? (vars : Variables) (id : String) : Option Value := (vars.binding? id).map (·.value)

def type? (vars : Variables) (id : String) : Option ValueType := (vars.binding? id).map (·.type)

def contains (vars : Variables) (id : String) : Bool := vars.bindings.any (·.id == id)

/-- Assigns to a variable, coercing to its type; `none` if it is not declared. -/
def assign? (vars : Variables) (id : String) (value : Value) : Option Variables :=
  if vars.contains id then
    some ⟨vars.bindings.map fun b => if b.id == id then { b with value := value.coerce b.type } else b⟩
  else none

def size (vars : Variables) : Nat := vars.bindings.length

/-- The values by id, in the order of the ids. -/
def toSorted (vars : Variables) : List (String × Value) :=
  sortOnText (·.1) (vars.bindings.map fun b => (b.id, b.value))

end Variables

end Gameplay
