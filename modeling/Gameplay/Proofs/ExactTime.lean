import Gameplay.Proofs.Freeze
import Mathlib.Algebra.Order.Ring.Unbundled.Rat
import Mathlib.Data.Rat.Sqrt
import Mathlib.Tactic.Linarith

/-!
# Exact times

Rational numbers of milliseconds are times on which no sum is rounded. A number of a document keeps its
value, and what a coordinate is computed from is rounded once.

## Main result

`transitionLeft_exact`: a tick takes its length off the time that a transition still takes.
-/

namespace Gameplay

namespace Binary

def toRat (x : Binary) : ℚ := x.signed * 2 ^ x.exponent

/-- A binary number that rounds to a single as a rational number does: 200 binary places of it, and one
more to tell whether anything is left. -/
def ofRat (q : ℚ) : Binary :=
  let scaled := q.num.natAbs * twoTo 200
  ⟨decide (q < 0), 2 * (scaled / q.den) + (if scaled % q.den = 0 then 0 else 1), -201⟩

end Binary

/-- The value of a double. Infinity is a time that no sum of finite ones comes near to. -/
def exactly (x : Float) : ℚ :=
  match Binary.ofFloat? x with
  | some b => b.toRat
  | none => if x.isNaN then 0 else if x < 0 then -2 ^ 1024 else 2 ^ 1024

instance : Scalar ℚ where
  decLe := inferInstance
  decLt := inferInstance
  sqrt := Rat.sqrt
  isFinite _ := true
  ofNat n := n
  ofFloat := exactly
  toFloat32 q := (Binary.ofRat q).toFloat32

example : exactly 0.375 = 3 / 8 := by decide +kernel

example : Scalar.toFloat32 (1 / 10 : ℚ) = 0.1 := by decide +kernel

instance : Timed ℚ := ⟨by decide +kernel, by decide +kernel⟩

theorem greater_zero {x : ℚ} (forward : 0 ≤ x) : Scalar.greater x 0 = x := by
  have number : Scalar.isNumber x = true := decide_eq_true (le_refl x)
  rw [Scalar.greater, if_pos number]
  exact if_neg (not_lt.mpr forward)

/-- At the pace of real time, a tick takes its length off the time that a transition still takes. -/
theorem World.transitionLeft_exact {w : World ℚ} {delta : ℚ} (scale : w.clock.scale = 1)
    (forward : 0 ≤ delta) : (w.opened delta).transitionLeft = w.transition.remaining - delta := by
  have length : (w.clock.advance delta).delta = delta :=
    (congrArg (delta * ·) scale).trans (mul_one delta)
  have taken : Scalar.greater (w.clock.advance delta).delta 0 = delta := by
    rw [length]
    exact greater_zero forward
  exact congrArg (w.transition.remaining - ·) taken

end Gameplay
