import Gameplay.Document.Basic

/-!
# Dangling references

A document may name a variable, an object, a sprite or a room that it does not declare. Each use of
such a name has one cause here.
-/

namespace Gameplay

/-- A reference to something that the document does not declare. -/
inductive Dangling
  | variable (scope : Scope) (id : String)
  | object (id : String)
  | sprite (id : String)
  | room (id : String)
deriving DecidableEq, Repr

def Dangling.message : Dangling → String
  | .variable scope id => "unknown " ++ scope.word ++ " variable `" ++ id ++ "`"
  | .object id => "unknown object `" ++ id ++ "`"
  | .sprite id => "unknown sprite `" ++ id ++ "`"
  | .room id => "unknown room `" ++ id ++ "`"

end Gameplay
