import Mathlib
import Gameplay.Number.Scalar

/-!
# Doubles

An operation on doubles unpacks their bits into a sign, a mantissa and an exponent, and packs what it has
computed. A double that is unpacked and packed again is the same, so a loop that adds one to zero and takes it
off again loses nothing.

## Main results

`zero_add`, `sub_self`: zero and a positive double make that double, and a finite one without itself is zero.
`le_iff_not_lt`: positive doubles are in a total order, infinity included.
-/

namespace Gameplay

open Float.Model (UnpackedFloat)

namespace Double

/-! ### order -/

theorem lt_iff (x y : Float) : x < y ↔ x.toModel.unpack.lt y.toModel.unpack = true := decide_eq_true_iff

theorem le_iff (x y : Float) : x ≤ y ↔ x.toModel.unpack.le y.toModel.unpack = true := decide_eq_true_iff

theorem zero_unpack : (0 : Float).toModel.unpack = .zero .positive := rfl

/-- Infinite, or finite and greater than zero. -/
inductive Positive : UnpackedFloat → Prop
  | infinity : Positive (.infinity .positive)
  | finite (mantissa : Nat) (exponent : Int) (positive : 0 < mantissa) :
      Positive (.finite .positive mantissa exponent positive)

theorem positive_iff (x : Float) : 0 < x ↔ Positive x.toModel.unpack := by
  rw [lt_iff, zero_unpack]
  generalize x.toModel.unpack = u
  constructor
  · intro less
    cases u with
    | notANumber | zero _ => cases less
    | infinity sign =>
      cases sign with
      | positive => exact .infinity
      | negative => cases less
    | finite sign mantissa exponent positive =>
      cases sign with
      | positive => exact .finite mantissa exponent positive
      | negative => cases less
  · intro positive
    cases positive <;> rfl

namespace Positive

variable {u v : UnpackedFloat}

theorem le_eq_not_lt (first : Positive u) (second : Positive v) : u.le v = !v.lt u := by
  cases first with
  | infinity => cases second <;> rfl
  | finite m e _ =>
    cases second with
    | infinity => rfl
    | finite m' e' _ =>
      -- the exponents decide, or else the mantissas, and each comparison can be turned round
      simp only [UnpackedFloat.le, UnpackedFloat.lt, UnpackedFloat.compare]
      rw [Std.OrientedOrd.eq_swap (a := e'), Std.OrientedOrd.eq_swap (a := m'), ← Ordering.swap_then]
      cases (compare e e').then (compare m m') <;> rfl

theorem lt_self (positive : Positive u) : u.lt u = false := by
  cases positive with
  | infinity => rfl
  | finite m e _ => simp [UnpackedFloat.lt, UnpackedFloat.compare, Std.ReflOrd.compare_self]

theorem lt_zero (positive : Positive u) : u.lt (.zero .positive) = false := by
  cases positive <;> rfl

theorem le_zero (positive : Positive u) : u.le (.zero .positive) = false := by
  cases positive <;> rfl

theorem zero_add (positive : Positive u) : UnpackedFloat.add .binary64 (.zero .positive) u = u := by
  cases positive <;> rfl

end Positive

variable {x y : Float}

theorem le_iff_not_lt (first : 0 < x) (second : 0 < y) : x ≤ y ↔ ¬ y < x := by
  rw [le_iff, lt_iff, ((positive_iff x).mp first).le_eq_not_lt ((positive_iff y).mp second),
    Bool.not_eq_true', Bool.not_eq_true]

theorem lt_irrefl (positive : 0 < x) : ¬ x < x := by
  rw [lt_iff, ((positive_iff x).mp positive).lt_self]
  exact Bool.false_ne_true

theorem not_lt_zero (positive : 0 < x) : ¬ x < 0 := by
  rw [lt_iff, zero_unpack, ((positive_iff x).mp positive).lt_zero]
  exact Bool.false_ne_true

theorem not_le_zero (positive : 0 < x) : ¬ x ≤ 0 := by
  rw [le_iff, zero_unpack, ((positive_iff x).mp positive).le_zero]
  exact Bool.false_ne_true

/-- A number that is not negative is at least zero. -/
theorem zero_le (number : x ≤ x) (forward : ¬ x < 0) : 0 ≤ x := by
  rw [le_iff] at number
  rw [lt_iff, zero_unpack] at forward
  rw [le_iff, zero_unpack]
  generalize x.toModel.unpack = u at number forward
  cases u with
  | notANumber => cases number
  | zero _ => rfl
  | infinity s | finite s _ _ _ =>
    cases s with
    | positive => rfl
    | negative => exact absurd rfl forward

/-! ### operations -/

/-- What is unpacked and packed again is the same. -/
theorem pack_toModel (x : Float) : Float.ofModel (.pack x.toModel.unpack) = x := by
  obtain ⟨⟨bits, valid⟩⟩ := x
  have same : UInt64.ofBitVec (UnpackedFloat.pack .binary64 (UnpackedFloat.unpack .binary64 bits.toBitVec)) =
      bits := congrArg UInt64.ofBitVec (UnpackedFloat.pack_unpack_of_valid valid)
  simp only [Float.Model.pack, Float.Model.unpack, same]

theorem zero_add (positive : 0 < x) : 0 + x = x := by
  have sum : 0 + x = .ofModel (.pack (UnpackedFloat.add .binary64 (.zero .positive) x.toModel.unpack)) := rfl
  rw [sum, ((positive_iff x).mp positive).zero_add, pack_toModel]

theorem sub_self (finite : x.isFinite = true) : x - x = 0 := by
  have finite : x.toModel.unpack.isFinite = true := finite
  have difference :
      x - x = .ofModel (.pack (UnpackedFloat.sub .binary64 x.toModel.unpack x.toModel.unpack)) := rfl
  rw [difference]
  cases unpacked : x.toModel.unpack with
  | notANumber | infinity _ =>
    rw [unpacked] at finite
    cases finite
  | zero sign => cases sign <;> rfl
  | finite sign mantissa exponent _ =>
    simp only [UnpackedFloat.sub, Int.sub_self]
    rfl

end Double

end Gameplay
