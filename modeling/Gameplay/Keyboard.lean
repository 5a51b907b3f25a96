import Gameplay.Document.Basic

/-!
# The keyboard

Which keys are held, and which were pressed or released since the edges were last cleared. Keys are
any texts.
-/

namespace Gameplay

/-- The state of the keyboard. No key stands twice in a list. -/
structure Keyboard where
  held : List String
  pressed : List String
  released : List String
deriving DecidableEq, Repr

namespace Keyboard

def empty : Keyboard := ⟨[], [], []⟩

def insertKey (keys : List String) (key : String) : List String :=
  if keys.contains key then keys else keys ++ [key]

/-- A key goes down. For a key that is held this changes nothing. -/
def press (k : Keyboard) (key : String) : Keyboard :=
  if k.held.contains key then k
  else { k with held := insertKey k.held key, pressed := insertKey k.pressed key }

/-- A key goes up. For a key that is not held this changes nothing. -/
def release (k : Keyboard) (key : String) : Keyboard :=
  if k.held.contains key then
    { k with held := k.held.filter (· != key), released := insertKey k.released key }
  else k

def releaseAll (k : Keyboard) : Keyboard :=
  { k with held := [], released := k.held.foldl insertKey k.released }

/-- Forgets the edges; held keys stay held. -/
def forgetEdges (k : Keyboard) : Keyboard := { k with pressed := [], released := [] }

def query (k : Keyboard) (key : String) : KeyState → Bool
  | .held => k.held.contains key
  | .pressed => k.pressed.contains key
  | .released => k.released.contains key

end Keyboard

end Gameplay
