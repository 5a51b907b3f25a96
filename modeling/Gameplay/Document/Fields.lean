import Gameplay.Json.Basic

/-!
# Fields of a record

A record is written as an object, or as an array of its fields in order, in which last fields may
be missing. In an object unknown names are ignored and a known name stands at most once.
-/

namespace Gameplay.Document

/-- Whether a value fits into `levels` containers within one another, with all its text Unicode and
all its numbers within the doubles. -/
def fits : Nat → Json → Bool
  | _, .null => true
  | _, .bool _ => true
  | _, .number n => n.toFloat?.isSome
  | _, .string s => s.isSome
  | 0, .array _ => false
  | 0, .object _ => false
  | levels + 1, .array items => items.all fun item => fits levels item
  | levels + 1, .object members =>
    members.all fun member => member.1.isSome && fits levels member.2

/-- The known fields that a record gives. -/
abbrev Fields := List (String × Json)

/-- Whether no name stands twice. -/
def distinct : List String → Bool
  | [] => true
  | name :: names => !names.contains name && distinct names

/-- The fields that a value gives for the given names; `none` if it is no such record. -/
def fields? (names : List String) : Json → Option Fields
  | .array items => if items.length ≤ names.length then some (names.zip items) else none
  | .object members =>
    let known := members.filterMap fun member =>
      member.1.bind fun name => if names.contains name then some (name, member.2) else none
    if (members.all fun member => member.1.isSome) && distinct (known.map (·.1)) then some known
    else none
  | _ => none

namespace Fields

variable {α : Type}

def required (fields : Fields) (name : String) (read : Json → Option α) : Option α :=
  (fields.lookup name).bind read

def optional (fields : Fields) (name : String) (default : α) (read : Json → Option α) : Option α :=
  match fields.lookup name with
  | none => some default
  | some value => read value

/-- A field that may be missing or `null`, which is the same. -/
def nullable (fields : Fields) (name : String) (read : Json → Option α) : Option (Option α) :=
  match fields.lookup name with
  | none => some none
  | some .null => some none
  | some value => (read value).map some

end Fields

/-- The tag of a tagged value: one of the names or, where numbers are allowed, the position of
one. -/
def tagName? (names : List String) (numbered : Bool) : Json → Option String
  | .string (some name) => if names.contains name then some name else none
  | .number n =>
    if numbered then n.toInt?.bind fun i => if 0 ≤ i then names[i.toNat]? else none else none
  | _ => none

/-- Splits a tagged value into its tag and the rest. An array begins with the tag; an object has it
exactly once. -/
def tagged? (tag : String) (names : List String) (numbered : Bool) :
    Json → Option (String × Json)
  | .array (first :: rest) => (tagName? names numbered first).map fun name => (name, .array rest)
  | .object members =>
    match members.filter fun member => member.1 == some tag with
    | [(_, value)] =>
      (tagName? names numbered value).map fun name =>
        (name, .object (members.filter fun member => member.1 != some tag))
    | _ => none
  | _ => none

/-- The rest of a tagged value that has no fields of its own. -/
def bare? {α : Type} (a : α) : Json → Option α
  | .array [] => some a
  | .object _ => some a
  | _ => none

end Gameplay.Document
