import Gameplay.Number.Binary

/-!
# Numbers that time and space are measured in

Durations and coordinates are used only through `Scalar`: the four operations, order, a square
root, and conversions from and to the numbers of a document. A game runs on `Float` durations and
`Float32` coordinates; exact rationals are another instance, on which the laws of time and space
hold without rounding.
-/

namespace Gameplay

/-- A number type with the operations that clocks, queues and boxes need. -/
class Scalar (α : Type) extends Zero α, One α, Add α, Sub α, Mul α, Div α, Neg α, LE α, LT α where
  decLe : DecidableLE α
  decLt : DecidableLT α
  sqrt : α → α
  isFinite : α → Bool
  ofNat : Nat → α
  ofFloat : Float → α
  toFloat32 : α → Float32

instance Scalar.decidableLE {α : Type} [Scalar α] : DecidableLE α := Scalar.decLe

instance Scalar.decidableLT {α : Type} [Scalar α] : DecidableLT α := Scalar.decLt

instance : Scalar Float where
  zero := 0
  one := 1
  decLe := inferInstance
  decLt := inferInstance
  sqrt := Float.sqrt
  isFinite := Float.isFinite
  ofNat := Float.ofNat
  ofFloat := id
  toFloat32 := narrow

instance : Scalar Float32 where
  zero := 0
  one := 1
  decLe := inferInstance
  decLt := inferInstance
  sqrt := Float32.sqrt
  isFinite := Float32.isFinite
  ofNat := Float32.ofNat
  ofFloat := narrow
  toFloat32 := id

namespace Scalar

variable {α : Type} [Scalar α]

/-- Whether two numbers are equal as numbers: minus zero equals zero, and what is no number equals
nothing. -/
def same (a b : α) : Bool := decide (a ≤ b) && decide (b ≤ a)

def isNumber (a : α) : Bool := decide (a ≤ a)

/-- The greater of two numbers; an operand that is no number is passed over. -/
def greater (a b : α) : α := if isNumber a then (if a < b then b else a) else b

/-- The lesser of two numbers; an operand that is no number is passed over. -/
def lesser (a b : α) : α := if isNumber a then (if b < a then b else a) else b

end Scalar

end Gameplay
