/-!
# Sorting

A stable insertion sort by a relation. A list that is already in order costs one comparison an element.
-/

namespace Gameplay

/-- Puts an element before the first one that it may precede. -/
def insertBy {α : Type} (r : α → α → Prop) [DecidableRel r] (a : α) : List α → List α
  | [] => [a]
  | b :: bs => if r a b then a :: b :: bs else b :: insertBy r a bs

def sortBy {α : Type} (r : α → α → Prop) [DecidableRel r] (as : List α) : List α :=
  as.foldr (insertBy r) []

/-- The elements in ascending order of their keys; those of one key keep their order. -/
def sortOn {α : Type} (key : α → Nat) : List α → List α := sortBy (key · ≤ key ·)

/-- The elements in the order of the code points of their texts. -/
def sortOnText {α : Type} (text : α → String) : List α → List α := sortBy fun a b => ¬ text b < text a

end Gameplay
