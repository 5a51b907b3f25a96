import Mathlib
import Gameplay.Proofs.Doubles
import Gameplay.Proofs.ExactTime

/-!
# Values of doubles

The bits of a double are read twice: by the operations on doubles, which unpack them, and by the conversions,
which decode them. Both find the same mantissa and exponent. These are normalized, so that the order of doubles,
which looks at the exponents first, is the order of the numbers that they stand for.

## Main results

`ofFloat?_eq`: what is decoded is what is unpacked.
`exactly_le`: finite doubles are ordered as their values are.
`unpack_pack`: a normalized number that is packed is unpacked again.
-/

namespace Gameplay

open Float.Model (UnpackedFloat Format)
open Float.Model.UnpackedFloat (Sign unpackMantissa unpackExponent unpackSign)

namespace Double

/-! ### normalized numbers -/

/-- The mantissa and the exponent of a finite double: at most 53 bits, of which the first one is set unless
the exponent is the least. -/
structure Normalized (m : Nat) (e : Int) : Prop where
  fits : m < 2 ^ 53
  least : -1074 ≤ e
  leading : e = -1074 ∨ 2 ^ 52 ≤ m

/-- An unpacked double that is finite. -/
inductive Number : UnpackedFloat → Prop
  | zero (s : Sign) : Number (.zero s)
  | finite (s : Sign) {m : Nat} {e : Int} (positive : 0 < m) :
      Normalized m e → e ≤ 971 → Number (.finite s m e positive)

/-- The number that an unpacked double stands for. -/
def number? : UnpackedFloat → Option Binary
  | .zero s => some ⟨s == .negative, 0, -1074⟩
  | .finite s m e _ => some ⟨s == .negative, m, e⟩
  | _ => none

/-- The value of an unpacked double, zero if it is not finite. -/
def value (u : UnpackedFloat) : ℚ := ((number? u).map Binary.toRat).getD 0

/-! ### reading bits -/

/-- The double of a sign, a mantissa that may be zero, and an exponent. -/
def ofParts (s : Sign) (m : Nat) (e : Int) : UnpackedFloat :=
  if none : m = 0 then .zero s else .finite s m e (Nat.pos_of_ne_zero none)

theorem ofParts_pos (s : Sign) {m : Nat} (e : Int) (positive : 0 < m) : ofParts s m e = .finite s m e positive :=
  dif_neg (Nat.ne_of_gt positive)

/-- The double of a sign and of the two fields for the exponent and the mantissa. The greatest exponent field is
one of what is not finite, the least one of numbers without a leading bit. -/
def ofFields (s : Sign) (field fraction : Nat) : UnpackedFloat :=
  if field = 2047 then if fraction = 0 then .infinity s else .notANumber
  else if field = 0 then ofParts s fraction (-1074)
  else .finite s (fraction + 2 ^ 52) (field - 1075) (by omega)

/-- Fields that do not stand for infinity or for no number stand for a number. -/
theorem ofFields_number {s : Sign} {field fraction : Nat} (fits : fraction < 2 ^ 52) (bound : field < 2 ^ 11)
    (finite : (ofFields s field fraction).isFinite = true) : Number (ofFields s field fraction) := by
  unfold ofFields at finite ⊢
  split at finite
  · split at finite <;> cases finite
  next inner =>
    rw [if_neg inner]
    split
    · unfold ofParts
      split
      · exact .zero s
      · exact .finite s _ ⟨by omega, le_refl _, .inl rfl⟩ (by decide)
    · exact .finite s _ ⟨by omega, by omega, .inr (by omega)⟩ (by omega)

variable (b : BitVec Format.binary64.numBits)

theorem mantissa_toNat :
    (unpackMantissa b).toNat = b.toNat % 2 ^ 52 := by
  rw [Float.Model.UnpackedFloat.unpackMantissa_def, BitVec.extractLsb'_toNat, Nat.shiftRight_zero]

theorem exponent_toNat :
    (unpackExponent b).toNat = b.toNat / 2 ^ 52 % 2 ^ 11 := by
  rw [Float.Model.UnpackedFloat.unpackExponent_def, BitVec.extractLsb'_toNat, Nat.shiftRight_eq_div_pow]

theorem sign_eq : Sign.ofBitVec (unpackSign b) =
    if b.toNat < 2 ^ 63 then .positive else .negative := by
  have bit : (unpackSign b).toNat = b.toNat / 2 ^ 63 % 2 := by
    rw [Float.Model.UnpackedFloat.unpackSign_def, BitVec.extractLsb'_toNat, Nat.shiftRight_eq_div_pow]
    rfl
  have size : b.toNat < 2 ^ 64 := b.isLt
  have zero : unpackSign b = 0#1 ↔ b.toNat < 2 ^ 63 := by
    rw [← BitVec.toNat_inj, bit, BitVec.toNat_ofNat]
    omega
  simp only [Sign.ofBitVec, zero]

/-- A bit pattern is unpacked by its sign and its two fields. -/
theorem unpack_eq : UnpackedFloat.unpack .binary64 b =
    ofFields (.ofBitVec (unpackSign b)) (unpackExponent b).toNat (unpackMantissa b).toNat := by
  have last : unpackExponent b = -1#11 ↔ (unpackExponent b).toNat = 2047 := by
    rw [← BitVec.toNat_inj]
    rfl
  have first : unpackExponent b = 0#11 ↔ (unpackExponent b).toNat = 0 := by
    rw [← BitVec.toNat_inj]
    rfl
  have none : unpackMantissa b = 0#52 ↔ (unpackMantissa b).toNat = 0 := by
    rw [← BitVec.toNat_inj]
    rfl
  have leading : (1#1 ++ unpackMantissa b).toNat =
      (unpackMantissa b).toNat + 2 ^ 52 := by
    rw [BitVec.toNat_append, ← Nat.shiftLeft_add_eq_or_of_lt (BitVec.isLt _), Nat.add_comm]
    rfl
  have bias : (Format.binary64.exponentBias + Format.binary64.mantissaBitsWithoutImplicit : Int) = 1075 := by
    decide
  -- each case of unpacking is told by the number in a field
  simp only [UnpackedFloat.unpack, ofFields, last, none, first, bias]
  split
  · split <;> rfl
  · split
    next least =>
      unfold ofParts
      split
      · rfl
      · congr 1
        rw [least]
        rfl
    · congr 1

/-- A bit pattern that is unpacked as finite is unpacked as a number. -/
theorem unpack_number (finite : (UnpackedFloat.unpack .binary64 b).isFinite = true) :
    Number (UnpackedFloat.unpack .binary64 b) := by
  rw [unpack_eq] at finite ⊢
  exact ofFields_number (BitVec.isLt _) (BitVec.isLt _) finite

/-- Below the sign bit the exponent field stands before the fraction. -/
theorem decode_fields (n : Nat) : BinaryFormat.double.decode n =
    if n % 2 ^ 63 < 2047 * 2 ^ 52 then
      if n % 2 ^ 63 / 2 ^ 52 = 0 then some ⟨decide (2 ^ 63 ≤ n), n % 2 ^ 63 % 2 ^ 52, -1074⟩
      else some ⟨decide (2 ^ 63 ≤ n), n % 2 ^ 63 % 2 ^ 52 + 2 ^ 52, (n % 2 ^ 63 / 2 ^ 52 : Nat) - 1 - 1074⟩
    else none := rfl

/-- What is decoded is what is unpacked. -/
theorem decode_eq : BinaryFormat.double.decode b.toNat = number? (UnpackedFloat.unpack .binary64 b) := by
  have size : b.toNat < 2 ^ 64 := b.isLt
  -- below the sign bit stand the eleven bits of the exponent and the fraction
  have field : b.toNat % 2 ^ 63 / 2 ^ 52 = b.toNat / 2 ^ 52 % 2 ^ 11 := by omega
  have fraction : b.toNat % 2 ^ 63 % 2 ^ 52 = b.toNat % 2 ^ 52 := by omega
  have sign : decide (2 ^ 63 ≤ b.toNat) =
      ((if b.toNat < 2 ^ 63 then .positive else .negative : Sign) == .negative) := by
    split
    next low => exact decide_eq_false (by omega)
    next high => exact decide_eq_true (by omega)
  rw [unpack_eq, sign_eq, exponent_toNat, mantissa_toNat, decode_fields, field, fraction, sign]
  generalize (if b.toNat < 2 ^ 63 then .positive else .negative : Sign) = s
  unfold ofFields
  by_cases last : b.toNat / 2 ^ 52 % 2 ^ 11 = 2047
  · rw [if_pos last, if_neg (by omega)]
    split <;> rfl
  · rw [if_neg last, if_pos (by omega)]
    split
    · unfold ofParts
      split
      next zero =>
        rw [zero]
        rfl
      · rfl
    · rw [Int.sub_sub]
      rfl

/-- A finite double that is packed is unpacked again. -/
theorem unpack_pack {u : UnpackedFloat} (number : Number u) :
    UnpackedFloat.unpack .binary64 (UnpackedFloat.pack .binary64 u) = u := by
  cases number with
  | zero s => exact Float.Model.UnpackedFloat.unpack_packedZero
  | @finite s m e positive normalized most =>
    obtain ⟨fits, least, leading⟩ := normalized
    have bias : e + Format.binary64.exponentBias + Format.binary64.mantissaBitsWithoutImplicit = e + 1075 := by
      rw [Int.add_assoc]
      rfl
    have inside : ¬ 2 ^ Format.binary64.exponentBits ≤ (e + 1075).toNat + 1 := by
      change ¬ 2 ^ 11 ≤ (e + 1075).toNat + 1
      omega
    have unpacked (field : BitVec 11) (fraction : BitVec 52) :
        UnpackedFloat.unpack .binary64 (UnpackedFloat.packComponents .binary64 s field fraction) =
          ofFields s field.toNat fraction.toNat := by
      rw [unpack_eq, Float.Model.UnpackedFloat.unpackSign_packComponents,
        Float.Model.UnpackedFloat.unpackExponent_packComponents,
        Float.Model.UnpackedFloat.unpackMantissa_packComponents, Sign.ofBitVec_toBitVec]
    simp only [UnpackedFloat.pack, bias, if_neg inside]
    -- only a mantissa with its leading bit has an exponent field of its own
    by_cases full : 2 ^ 52 ≤ m
    · have bits : m.log2 + 1 = Format.binary64.mantissaBits := by
        rw [(Nat.log2_eq_iff (Nat.ne_of_gt positive)).mpr ⟨full, fits⟩]
        rfl
      rw [if_pos bits, unpacked, BitVec.toNat_ofNat, BitVec.toNat_ofNat]
      unfold ofFields
      rw [if_neg (by omega), if_neg (by omega)]
      congr 1 <;> omega
    · have bits : m.log2 + 1 ≠ Format.binary64.mantissaBits := by
        have low := (Nat.log2_lt (Nat.ne_of_gt positive)).mpr (Nat.not_le.mp full)
        change m.log2 + 1 ≠ 53
        omega
      rw [if_neg bits, unpacked, BitVec.toNat_ofNat, BitVec.toNat_ofNat, Nat.mod_eq_of_lt (Nat.not_le.mp full)]
      unfold ofFields
      rw [if_neg (by decide), if_pos rfl, ofParts_pos s _ positive, leading.resolve_right full]

/-! ### order -/

section

variable {m n : Nat} {e k : Int}

/-- The number with the greater exponent is the greater one. -/
theorem Normalized.lt_of_exponent (first : Normalized m e) (second : Normalized n k) (less : e < k) :
    (m : ℚ) * 2 ^ e < n * 2 ^ k := by
  have leading : 2 ^ 52 ≤ n := second.leading.resolve_left (by have := first.least; omega)
  calc (m : ℚ) * 2 ^ e
      < 2 ^ 53 * 2 ^ e := by
        have fits : (m : ℚ) < 2 ^ 53 := by exact_mod_cast first.fits
        gcongr
    _ = 2 ^ 52 * 2 ^ (e + 1) := by rw [zpow_add_one₀ two_ne_zero]; ring
    _ ≤ n * 2 ^ k := by
        have leading : (2 ^ 52 : ℚ) ≤ n := by exact_mod_cast leading
        gcongr
        · exact one_le_two
        · omega

/-- Of two positive numbers with a leading bit the one with the greater exponent is greater. -/
theorem Normalized.compare_eq (first : Normalized m e) (second : Normalized n k) :
    (compare e k).then (compare m n) = compare ((m : ℚ) * 2 ^ e) (n * 2 ^ k) := by
  rcases lt_trichotomy e k with less | rfl | greater
  · rw [compare_lt_iff_lt.mpr less, compare_lt_iff_lt.mpr (first.lt_of_exponent second less)]
    rfl
  · have unit : (0 : ℚ) < 2 ^ e := zpow_pos two_pos e
    rw [compare_eq_iff_eq.mpr rfl, Ordering.eq_then]
    rcases lt_trichotomy m n with less | rfl | greater
    · rw [compare_lt_iff_lt.mpr less, compare_lt_iff_lt.mpr]
      exact mul_lt_mul_of_pos_right (Nat.cast_lt.mpr less) unit
    · rw [compare_eq_iff_eq.mpr rfl, compare_eq_iff_eq.mpr rfl]
    · rw [compare_gt_iff_gt.mpr greater, compare_gt_iff_gt.mpr]
      exact mul_lt_mul_of_pos_right (Nat.cast_lt.mpr greater) unit
  · rw [compare_gt_iff_gt.mpr greater, compare_gt_iff_gt.mpr (second.lt_of_exponent first greater)]
    rfl

end

theorem value_zero (s : Sign) : value (.zero s) = 0 := by
  cases s <;> simp [value, number?, Binary.toRat, Binary.signed]

theorem value_positive {m : Nat} {e : Int} (positive : 0 < m) :
    value (.finite .positive m e positive) = m * 2 ^ e := by
  simp [value, number?, Binary.toRat, Binary.signed]

theorem value_negative {m : Nat} {e : Int} (positive : 0 < m) :
    value (.finite .negative m e positive) = -(m * 2 ^ e) := by
  simp [value, number?, Binary.toRat, Binary.signed]

theorem units_nonneg (m : Nat) (e : Int) : 0 ≤ (m : ℚ) * 2 ^ e :=
  mul_nonneg (Nat.cast_nonneg m) (zpow_pos two_pos e).le

theorem Number.neg {u : UnpackedFloat} (number : Number u) : Number u.neg := by
  cases number with
  | zero s => exact .zero _
  | finite s positive normalized most => exact .finite _ positive normalized most

theorem Number.value_neg {u : UnpackedFloat} (number : Number u) : value u.neg = -value u := by
  cases number with
  | zero s => exact (value_zero _).trans (by rw [value_zero, neg_zero])
  | finite s positive _ _ =>
    cases s with
    | positive => rw [value_positive]; exact value_negative positive
    | negative => rw [value_negative, neg_neg]; exact value_positive positive

private theorem compare_neg (a b : ℚ) : compare (-a) (-b) = (compare a b).swap := by
  rw [← Std.OrientedOrd.eq_swap]
  rcases lt_trichotomy a b with less | rfl | greater
  · rw [compare_gt_iff_gt.mpr less, compare_gt_iff_gt.mpr (neg_lt_neg less)]
  · rw [compare_eq_iff_eq.mpr rfl, compare_eq_iff_eq.mpr rfl]
  · rw [compare_lt_iff_lt.mpr greater, compare_lt_iff_lt.mpr (neg_lt_neg greater)]

/-- Doubles are compared as their values are. -/
theorem Number.compare_eq {u v : UnpackedFloat} (first : Number u) (second : Number v) :
    u.compare v = some (compare (value u) (value v)) := by
  have less {a b : ℚ} (h : a < b) : some Ordering.lt = some (compare a b) :=
    congrArg some (compare_lt_iff_lt.mpr h).symm
  have greater {a b : ℚ} (h : b < a) : some Ordering.gt = some (compare a b) :=
    congrArg some (compare_gt_iff_gt.mpr h).symm
  have above {m : Nat} {e : Int} (positive : 0 < m) : 0 < value (.finite .positive m e positive) := by
    rw [value_positive]
    exact mul_pos (Nat.cast_pos.mpr positive) (zpow_pos two_pos e)
  have below {m : Nat} {e : Int} (positive : 0 < m) : value (.finite .negative m e positive) < 0 := by
    rw [value_negative]
    exact neg_lt_zero.mpr (mul_pos (Nat.cast_pos.mpr positive) (zpow_pos two_pos e))
  -- the signs decide unless they are the same
  cases first with
  | zero s =>
    cases second with
    | zero s' => exact congrArg some (by rw [value_zero, value_zero, compare_eq_iff_eq.mpr rfl])
    | finite s' positive _ _ =>
      rw [value_zero]
      cases s' with
      | positive => exact less (above positive)
      | negative => exact greater (below positive)
  | finite s positive normalized _ =>
    cases second with
    | zero s' =>
      rw [value_zero]
      cases s with
      | positive => exact greater (above positive)
      | negative => exact less (below positive)
    | finite s' positive' normalized' _ =>
      cases s with
      | positive =>
        cases s' with
        | positive =>
          rw [value_positive, value_positive, ← normalized.compare_eq normalized']
          rfl
        | negative => exact greater ((below positive').trans (above positive))
      | negative =>
        cases s' with
        | positive => exact less ((below positive).trans (above positive'))
        | negative =>
          rw [value_negative, value_negative, compare_neg, ← normalized.compare_eq normalized']
          rfl

/-- Finite doubles are compared as the numbers that they stand for. -/
theorem Number.lt_iff {u v : UnpackedFloat} (first : Number u) (second : Number v) :
    u.lt v = true ↔ value u < value v := by
  rw [UnpackedFloat.lt, first.compare_eq second, ← compare_lt_iff_lt, beq_iff_eq, Option.some_inj]

theorem Number.le_iff {u v : UnpackedFloat} (first : Number u) (second : Number v) :
    u.le v = true ↔ value u ≤ value v := by
  rw [UnpackedFloat.le, first.compare_eq second, ← compare_le_iff_le, Option.any_some, Ordering.isLE_iff_ne_gt]

theorem ofFloat?_eq (x : Float) : Binary.ofFloat? x = number? x.toModel.unpack :=
  decode_eq x.toBits.toBitVec

theorem number?_isSome {u : UnpackedFloat} (number : Number u) : ∃ b, number? u = some b := by
  cases number <;> exact ⟨_, rfl⟩

/-- The value of a finite double is that of its unpacked form. -/
theorem exactly_eq {x : Float} (finite : x.isFinite = true) : exactly x = value x.toModel.unpack := by
  obtain ⟨b, found⟩ := number?_isSome (unpack_number _ finite)
  have found : number? x.toModel.unpack = some b := found
  rw [exactly, ofFloat?_eq, value, found]
  rfl

theorem finite_of_number? {u : UnpackedFloat} {b : Binary} (found : number? u = some b) :
    u.isFinite = true := by
  cases u with
  | zero _ | finite _ _ _ _ => rfl
  | infinity _ | notANumber => cases found

/-- Bits that are decoded to a number make that number. -/
theorem ofBits_eq {n : Nat} (size : n < 2 ^ 64) {b : Binary}
    (decoded : BinaryFormat.double.decode n = some b) :
    (Float.ofBits (.ofNat n)).isFinite = true ∧ exactly (.ofBits (.ofNat n)) = b.toRat := by
  have bits : (UInt64.ofNat n).toBitVec.toNat = n := by
    rw [UInt64.toNat_toBitVec, UInt64.toNat_ofNat', Nat.mod_eq_of_lt size]
  have found : number? (UnpackedFloat.unpack .binary64 (UInt64.ofNat n).toBitVec) = some b := by
    rw [← decode_eq, bits, decoded]
  have finite := finite_of_number? found
  have packed : (Float.ofBits (.ofNat n)).toModel.unpack =
      UnpackedFloat.unpack .binary64 (UInt64.ofNat n).toBitVec := unpack_pack (unpack_number _ finite)
  have kept : (Float.ofBits (.ofNat n)).isFinite = true := (congrArg _ packed).trans finite
  refine ⟨kept, ?_⟩
  rw [exactly_eq kept, packed, value, found]
  rfl

theorem number_of_finite {x : Float} (finite : x.isFinite = true) : Number x.toModel.unpack :=
  unpack_number _ finite

/-- Finite doubles are ordered as their values are. -/
theorem exactly_le {x y : Float} (first : x.isFinite = true) (second : y.isFinite = true) :
    x ≤ y ↔ exactly x ≤ exactly y := by
  rw [le_iff, (number_of_finite first).le_iff (number_of_finite second), exactly_eq first, exactly_eq second]

end Double

end Gameplay
