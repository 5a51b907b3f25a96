import Gameplay.Number.Reader

/-!
# JSON values

A value keeps what its text says: numbers as numerals, members in order and perhaps with the same
name twice. Text in which a surrogate stands alone is no Unicode text; such a string or name is
`none`, so that a reader which skips it need not mind.
-/

namespace Gameplay

/-- A JSON value as written. -/
inductive Json
  | null
  | bool (b : Bool)
  | number (n : Numeral)
  | string (text : Option String)
  | array (items : List Json)
  | object (members : List (Option String × Json))
deriving Inhabited

namespace Json

def text (s : String) : Json := .string (some s)

def int (n : Int) : Json := .number (.ofInt n)

def nat (n : Nat) : Json := .int n

/-- A double, or `null` if it is not finite. -/
def float (x : Float) : Json := ((Numeral.ofFloat? x).map .number).getD .null

/-- A single, or `null` if it is not finite. -/
def float32 (x : Float32) : Json := ((Numeral.ofFloat32? x).map .number).getD .null

def record (members : List (String × Json)) : Json :=
  .object (members.map fun (name, value) => (some name, value))

/-- An optional value; an absent one is `null`. -/
def orNull {α : Type} (value : α → Json) : Option α → Json
  | none => .null
  | some a => value a

end Json

end Gameplay
