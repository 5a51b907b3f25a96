import Gameplay.Document.Basic

/-!
# Words of the document

The words that stand in a document for the members of an enumeration, and the names of fields in
their order. Reader and writer share these tables.
-/

namespace Gameplay.Document

abbrev Words (α : Type) := List (String × α)

/-- The word for a member; a table lists every member. -/
def Words.word {α : Type} [DecidableEq α] (table : Words α) (a : α) : String :=
  ((table.find? fun entry => entry.2 = a).map (·.1)).getD ""

def valueTypes : Words ValueType :=
  [("number", .number), ("string", .string), ("boolean", .boolean)]

def scopes : Words Scope := [("global", .global), ("object", .object)]

def keyStates : Words KeyState :=
  [("held", .held), ("pressed", .pressed), ("released", .released)]

def comparisons : Words Comparison :=
  [("==", .eq), ("!=", .ne), ("<", .lt), ("<=", .le), (">", .gt), (">=", .ge)]

def transitions : Words TransitionKind :=
  [("none", .none), ("fade", .fade), ("slideLeft", .slideLeft), ("slideRight", .slideRight)]

def changeOps : Words ChangeOp :=
  [("set", .set), ("add", .add), ("subtract", .subtract), ("multiply", .multiply),
    ("divide", .divide), ("toggle", .toggle)]

/-- The types of action, in the order of their numbers. -/
def actionTypes : List String :=
  ["move", "setVelocity", "rotate", "moveToward", "clampToRoom", "teleport", "destroySelf",
    "destroyOther", "spawnObject", "changeScore", "endGame", "message", "playSound",
    "changeVariable", "randomizeVariable", "copyVariable", "goToRoom", "restartRoom", "wait",
    "emitCustomEvent"]

/-- The types of event, in the order of their numbers. -/
def eventTypes : List String := ["create", "step", "collision", "custom"]

/-- The kinds of item, in the order of their numbers. -/
def itemKinds : List String := ["action", "if"]

end Gameplay.Document
