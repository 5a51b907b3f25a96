import Gameplay.Proofs.DoubleValues

/-!
# Rounding to doubles

Operations on doubles and conversions to them round each in a way of their own. Of either it is enough to know
that a number goes to one of its two neighbours among the multiples of a unit, and that the unit leaves room for
53 bits. So no rounding leaps over a double: what is at most a double is so when it is rounded, too.

## Main results

`Rounded.le`, `Rounded.ge`: rounded numbers stay on their side of every double.
`exactly_toFloat`: a number that is converted to a double is rounded so.
`not_lt_sub`: a double that is greater than another, which is not negative, does not grow when it is
subtracted.
-/

namespace Gameplay

open Float.Model (UnpackedFloat)
open Float.Model.UnpackedFloat (Sign ExtendedMantissa)

theorem Binary.toRat_eq (x : Binary) : x.toRat =
    if x.negative then -((x.significand : ℚ) * 2 ^ x.exponent) else x.significand * 2 ^ x.exponent := by
  unfold toRat signed
  split <;> simp

namespace Double

/-! ### units -/

/-- The unit in which a number is rounded: its first bit is bit 52 of the mantissa, if the exponent can be so
small. -/
def unit (n : Nat) (e : Int) : Int := max (n.log2 + 1 + e - 53) (-1074)

/-- A positive number `x` is rounded to `q` units of `2 ^ t`. -/
structure Rounded (x : ℚ) (q : Nat) (t : Int) : Prop where
  least : -1074 ≤ t
  most : x < 2 ^ 53 * 2 ^ t
  leading : t = -1074 ∨ 2 ^ 52 * 2 ^ t ≤ x
  below : ∀ n : Nat, x ≤ n * 2 ^ t → q ≤ n
  above : ∀ n : Nat, n * 2 ^ t ≤ x → n ≤ q

/-- One of the two whole numbers next to `n / 2 ^ k`, or that number itself. -/
def Neighbour (n k q : Nat) : Prop := q = n / 2 ^ k ∨ q = n / 2 ^ k + 1 ∧ n % 2 ^ k ≠ 0

theorem Neighbour.le {n k q bound : Nat} (near : Neighbour n k q) (le : n ≤ bound * 2 ^ k) : q ≤ bound := by
  have positive : 0 < 2 ^ k := Nat.two_pow_pos k
  rcases near with rfl | ⟨rfl, rest⟩
  · exact Nat.div_le_of_le_mul (by rwa [Nat.mul_comm])
  · -- something is left over, so the quotient is smaller
    rw [Nat.add_one_le_iff, Nat.div_lt_iff_lt_mul positive]
    refine Nat.lt_of_le_of_ne le ?_
    rintro rfl
    exact rest (Nat.mul_mod_left bound _)

theorem Neighbour.ge {n k q bound : Nat} (near : Neighbour n k q) (le : bound * 2 ^ k ≤ n) : bound ≤ q := by
  have quotient : bound ≤ n / 2 ^ k := (Nat.le_div_iff_mul_le (Nat.two_pow_pos k)).mpr le
  rcases near with rfl | ⟨rfl, _⟩
  · exact quotient
  · exact quotient.trans (Nat.le_succ _)

/-- A number with enough bits for its unit. -/
theorem unit_spec {n : Nat} {e : Int} (positive : 0 < n) :
    (n : ℚ) * 2 ^ e < 2 ^ 53 * 2 ^ unit n e ∧ (unit n e = -1074 ∨ 2 ^ 52 * 2 ^ unit n e ≤ (n : ℚ) * 2 ^ e) := by
  have one : (1 : ℚ) ≤ 2 := one_le_two
  have base : (2 : ℚ) ≠ 0 := two_ne_zero
  constructor
  · -- the first bit of `n` is its bit `n.log2`
    have bits : (n : ℚ) < 2 ^ (n.log2 + 1) := by exact_mod_cast Nat.lt_log2_self
    calc (n : ℚ) * 2 ^ e
        < 2 ^ (n.log2 + 1) * 2 ^ e := by gcongr
      _ = 2 ^ (n.log2 + 1 + e : Int) := by rw [← zpow_natCast, ← zpow_add₀ base]; norm_cast
      _ ≤ 2 ^ (53 + unit n e) := zpow_le_zpow_right₀ one (by unfold unit; omega)
      _ = 2 ^ 53 * 2 ^ unit n e := by rw [zpow_add₀ base]; norm_cast
  · rcases Int.le_total (n.log2 + 1 + e - 53) (-1074) with low | high
    · exact .inl (max_eq_right low)
    · right
      have bits : (2 : ℚ) ^ n.log2 ≤ n := by exact_mod_cast Nat.log2_self_le (Nat.ne_of_gt positive)
      calc (2 : ℚ) ^ 52 * 2 ^ unit n e
          = 2 ^ (52 + unit n e) := by rw [zpow_add₀ base]; norm_cast
        _ = 2 ^ (n.log2 + e : Int) := by rw [unit, max_eq_left high]; congr 1; omega
        _ = 2 ^ n.log2 * 2 ^ e := by rw [zpow_add₀ base, zpow_natCast]
        _ ≤ n * 2 ^ e := by gcongr

/-- What is a multiple of a unit is one of every smaller unit. -/
theorem multiple {m : Nat} {t e : Int} (le : t ≤ e) :
    (m : ℚ) * 2 ^ e = (m * 2 ^ (e - t).toNat : Nat) * 2 ^ t := by
  have exponents : ((e - t).toNat : Int) + t = e := by omega
  push_cast
  rw [mul_assoc, ← zpow_natCast, ← zpow_add₀ two_ne_zero, exponents]

/-- A neighbour in the right unit is a rounded number. -/
theorem Rounded.of_neighbour {n q : Nat} {e : Int} (positive : 0 < n)
    (near : Neighbour (n * 2 ^ (e - unit n e).toNat) (unit n e - e).toNat q) :
    Rounded (n * 2 ^ e) q (unit n e) := by
  obtain ⟨most, leading⟩ := unit_spec (e := e) positive
  have least : -1074 ≤ unit n e := le_max_right _ _
  generalize unit n e = t at near most leading least ⊢
  -- the two sides of a comparison are multiples of the smaller unit
  have left : (n : ℚ) * 2 ^ e = (n * 2 ^ (e - t).toNat : Nat) * 2 ^ min e t := by
    have shift : (e - t).toNat = (e - min e t).toNat := by omega
    rw [shift, ← multiple (min_le_left e t)]
  have right (bound : Nat) : (bound : ℚ) * 2 ^ t = (bound * 2 ^ (t - e).toNat : Nat) * 2 ^ min e t := by
    have shift : (t - e).toNat = (t - min e t).toNat := by omega
    rw [shift, ← multiple (min_le_right e t)]
  have power : (0 : ℚ) < 2 ^ min e t := zpow_pos two_pos _
  refine ⟨least, most, leading, fun bound le => near.le ?_, fun bound le => near.ge ?_⟩
  · rw [left, right] at le
    exact_mod_cast le_of_mul_le_mul_right le power
  · rw [left, right] at le
    exact_mod_cast le_of_mul_le_mul_right le power

/-! ### doubles on either side -/

section

variable {x : ℚ} {q m : Nat} {t e : Int} {u : UnpackedFloat}

theorem Rounded.fits (rounded : Rounded x q t) : q ≤ 2 ^ 53 :=
  rounded.below _ (by exact_mod_cast rounded.most.le)

/-- A double of a smaller exponent is less than the number. -/
private theorem Rounded.smaller (rounded : Rounded x q t) (normalized : Normalized m e) (less : e < t) :
    (m : ℚ) * 2 ^ e < 2 ^ 52 * 2 ^ t ∧ 2 ^ 52 * 2 ^ t ≤ x := by
  refine ⟨?_, rounded.leading.resolve_left (by have := normalized.least; omega)⟩
  have unit : Normalized (2 ^ 52) t :=
    ⟨by decide, rounded.least, .inr (le_refl _)⟩
  exact_mod_cast normalized.lt_of_exponent unit less

/-- Unless the unit is the least one, the mantissa has its leading bit. -/
theorem Rounded.leads (rounded : Rounded x q t) : t = -1074 ∨ 2 ^ 52 ≤ q :=
  rounded.leading.imp_right fun le => rounded.above _ (by exact_mod_cast le)

/-- A mantissa with one bit more is the least one of the next exponent. -/
theorem carry_eq (t : Int) : ((2 ^ 52 : Nat) : ℚ) * 2 ^ (t + 1) = (2 ^ 53 : Nat) * 2 ^ t := by
  rw [zpow_add_one₀ two_ne_zero]
  push_cast
  ring

/-- What is at most a double is so when it is rounded. -/
theorem Rounded.le (rounded : Rounded x q t) (normalized : Normalized m e) (le : x ≤ m * 2 ^ e) :
    (q : ℚ) * 2 ^ t ≤ m * 2 ^ e := by
  rcases Int.lt_or_le e t with less | room
  · obtain ⟨small, large⟩ := rounded.smaller normalized less
    exact absurd (small.trans_le large) (not_lt.mpr le)
  · rw [multiple room] at le ⊢
    have bound := rounded.below _ le
    gcongr

/-- What is at least a double is so when it is rounded. -/
theorem Rounded.ge (rounded : Rounded x q t) (normalized : Normalized m e) (ge : m * 2 ^ e ≤ x) :
    m * 2 ^ e ≤ (q : ℚ) * 2 ^ t := by
  rcases Int.lt_or_le e t with less | room
  · obtain ⟨small, large⟩ := rounded.smaller normalized less
    have bound : 2 ^ 52 ≤ q := rounded.above _ (by exact_mod_cast large)
    refine small.le.trans ?_
    have bound : (2 ^ 52 : ℚ) ≤ q := by exact_mod_cast bound
    gcongr
  · rw [multiple room] at ge ⊢
    have bound := rounded.above _ ge
    gcongr

/-- In units of at most one a whole number is not changed. -/
theorem Rounded.whole {n : Nat} (rounded : Rounded n q t) (small : t ≤ 0) : (q : ℚ) * 2 ^ t = n := by
  have same : (n : ℚ) = (n * 2 ^ (0 - t).toNat : Nat) * 2 ^ t := by
    rw [← multiple small, zpow_zero, mul_one]
  have units : q = n * 2 ^ (0 - t).toNat :=
    le_antisymm (rounded.below _ same.le) (rounded.above _ same.ge)
  rw [same, units]

/-- What is at most a double is so when it is rounded. -/
theorem Rounded.le_value (rounded : Rounded x q t) (positive : 0 < x) (number : Number u) (le : x ≤ value u) :
    (q : ℚ) * 2 ^ t ≤ value u := by
  cases number with
  | zero s =>
    rw [value_zero] at le
    exact absurd positive (not_lt.mpr le)
  | @finite s m e some normalized _ =>
    cases s with
    | positive =>
      rw [value_positive] at le ⊢
      exact rounded.le normalized le
    | negative =>
      rw [value_negative] at le
      exact absurd (positive.trans_le le) (not_lt.mpr (neg_nonpos.mpr (units_nonneg m e)))

/-- What is at least a double is so when it is rounded. -/
theorem Rounded.value_le (rounded : Rounded x q t) (number : Number u) (le : value u ≤ x) :
    value u ≤ (q : ℚ) * 2 ^ t := by
  cases number with
  | zero s =>
    rw [value_zero]
    exact units_nonneg q t
  | @finite s m e some normalized _ =>
    cases s with
    | positive =>
      rw [value_positive] at le ⊢
      exact rounded.ge normalized le
    | negative =>
      rw [value_negative]
      exact (neg_nonpos.mpr (units_nonneg m e)).trans (units_nonneg q t)

/-- A whole number stays whole when it is rounded. -/
theorem Rounded.isWhole {n : Nat} (rounded : Rounded n q t) : ∃ k : Nat, (q : ℚ) * 2 ^ t = k := by
  rcases le_total t 0 with small | large
  · exact ⟨n, rounded.whole small⟩
  · refine ⟨q * 2 ^ (t - 0).toNat, ?_⟩
    rw [multiple large, zpow_zero, mul_one]

end

/-- A double of this size has no bits for a fraction. -/
theorem Number.isWhole {u : UnpackedFloat} (number : Number u) (large : 2 ^ 53 ≤ |value u|) :
    ∃ n : Int, value u = n := by
  cases number with
  | zero s => exact ⟨0, by rw [value_zero, Int.cast_zero]⟩
  | @finite s m e some normalized _ =>
    have size : |value (.finite s m e some)| = m * 2 ^ e := by
      cases s with
      | positive => rw [value_positive, abs_of_nonneg (units_nonneg m e)]
      | negative => rw [value_negative, abs_neg, abs_of_nonneg (units_nonneg m e)]
    have exponent : 0 ≤ e := by
      -- a significand is less than two to the power 53, so a unit of a half or less makes the number too small
      by_contra fraction
      rw [size] at large
      have fits : (m : ℚ) < 2 ^ 53 := by exact_mod_cast normalized.fits
      have power : (2 : ℚ) ^ e ≤ 1 := zpow_le_one_of_nonpos₀ one_le_two (by omega)
      have less : (m : ℚ) * 2 ^ e ≤ m := mul_le_of_le_one_right (Nat.cast_nonneg m) power
      linarith
    have whole : (m : ℚ) * 2 ^ e = (m * 2 ^ (e - 0).toNat : Nat) := by
      rw [multiple exponent, zpow_zero, mul_one]
    cases s with
    | positive => exact ⟨(m * 2 ^ (e - 0).toNat : Nat), by rw [value_positive, whole, Int.cast_natCast]⟩
    | negative =>
      exact ⟨-(m * 2 ^ (e - 0).toNat : Nat), by rw [value_negative, whole, Int.cast_neg, Int.cast_natCast]⟩

/-! ### conversions -/

theorem shiftRound_neighbour (n k : Nat) : Neighbour n k (BinaryFormat.shiftRound n k) := by
  have positive : 0 < twoTo k := Nat.two_pow_pos k
  have rest (large : ¬ 2 * (n % twoTo k) < twoTo k) : n % 2 ^ k ≠ 0 := by
    intro none
    have none : n % twoTo k = 0 := none
    omega
  unfold BinaryFormat.shiftRound
  dsimp only
  split
  · exact .inl rfl
  next large =>
    split
    · exact .inl rfl
    · exact .inr ⟨rfl, rest large⟩

/-- A number is encoded as its rounding in the unit for its size, or as infinity where that is too large. -/
theorem encode_eq {x : Binary} (positive : 0 < x.significand) :
    ∃ q, Rounded (x.significand * 2 ^ x.exponent) q (unit x.significand x.exponent) ∧
      BinaryFormat.double.encode x = (if x.negative then 2 ^ 63 else 0) +
        min ((unit x.significand x.exponent + 1074).toNat * 2 ^ 52 + q) (2047 * 2 ^ 52) := by
  obtain ⟨negative, n, e⟩ := x
  dsimp only at positive ⊢
  have shift : max ((n.log2 : Int) - 52) (-1074 - e) = unit n e - e := by
    unfold unit
    omega
  generalize kept : (if 0 ≤ unit n e - e then BinaryFormat.shiftRound n (unit n e - e).toNat
    else n * 2 ^ (-(unit n e - e)).toNat) = q
  have encoded : BinaryFormat.double.encode ⟨negative, n, e⟩ = (if negative then 2 ^ 63 else 0) +
      min ((e + (unit n e - e) + 1074).toNat * 2 ^ 52 + q) (2047 * 2 ^ 52) := by
    rw [← kept, ← shift]
    exact if_neg (Nat.ne_of_gt positive)
  refine ⟨q, Rounded.of_neighbour positive ?_, ?_⟩
  · subst kept
    -- one side is rounded to a coarser unit, the other is exact in a finer one
    split
    next coarse =>
      have same : (e - unit n e).toNat = 0 := by omega
      rw [same, Nat.pow_zero, Nat.mul_one]
      exact shiftRound_neighbour _ _
    next fine =>
      have same : (unit n e - e).toNat = 0 := by omega
      rw [same, Int.neg_sub]
      exact .inl (Nat.div_one _).symm
  · rw [encoded, add_sub_cancel]

/-- The sign and the magnitude are decoded on their own. -/
theorem decode_magnitude (negative : Bool) {n : Nat} (finite : n < 2047 * 2 ^ 52) :
    BinaryFormat.double.decode ((if negative then 2 ^ 63 else 0) + n) =
      if n / 2 ^ 52 = 0 then some ⟨negative, n % 2 ^ 52, -1074⟩
      else some ⟨negative, n % 2 ^ 52 + 2 ^ 52, (n / 2 ^ 52 : Nat) - 1 - 1074⟩ := by
  generalize bits : (if negative then 2 ^ 63 else 0) + n = b
  have magnitude : b % 2 ^ 63 = n := by
    rw [← bits]
    split <;> omega
  have sign : decide (2 ^ 63 ≤ b) = negative := by
    rw [← bits]
    cases negative with
    | true => exact decide_eq_true (Nat.le_add_right _ _)
    | false => exact decide_eq_false (by simp only [Bool.false_eq_true, if_false]; omega)
  rw [decode_fields, magnitude, sign, if_pos finite]

/-- The bits of a rounded number. A carry out of the rounding goes on to the next exponent. -/
theorem decode_rounded {x : ℚ} {q : Nat} {t : Int} (rounded : Rounded x q t) (small : t ≤ 970)
    (negative : Bool) :
    ∃ b, BinaryFormat.double.decode ((if negative then 2 ^ 63 else 0) + ((t + 1074).toNat * 2 ^ 52 + q)) =
      some b ∧ b.toRat = if negative then -((q : ℚ) * 2 ^ t) else q * 2 ^ t := by
  have least := rounded.least
  have fits := rounded.fits
  have leading := rounded.leads
  generalize magnitude : (t + 1074).toNat * 2 ^ 52 + q = n
  rw [decode_magnitude negative (by omega)]
  -- below the leading digit the number is subnormal, in the least unit
  rcases Nat.lt_or_ge q (2 ^ 52) with low | high
  · have exponent : t = -1074 := leading.resolve_right (Nat.not_le.mpr low)
    refine ⟨⟨negative, q, t⟩, ?_, Binary.toRat_eq _⟩
    rw [if_pos (by omega), Option.some_inj, Binary.mk.injEq]
    exact ⟨rfl, by omega, exponent.symm⟩
  · rw [if_neg (by omega)]
    -- a significand that is rounded up to a power of two moves to the next exponent
    rcases Nat.lt_or_eq_of_le fits with inside | carry
    · refine ⟨⟨negative, q, t⟩, ?_, Binary.toRat_eq _⟩
      rw [Option.some_inj, Binary.mk.injEq]
      exact ⟨rfl, by omega, by omega⟩
    · refine ⟨⟨negative, 2 ^ 52, t + 1⟩, ?_, ?_⟩
      · rw [Option.some_inj, Binary.mk.injEq]
        exact ⟨rfl, by omega, by omega⟩
      · rw [Binary.toRat_eq, carry, carry_eq]

/-- A number that is converted to a double is rounded. -/
theorem exactly_toFloat {x : Binary} (positive : 0 < x.significand)
    (bound : (x.significand : ℚ) * 2 ^ x.exponent < 2 ^ (1023 : Int)) :
    x.toFloat.isFinite = true ∧ ∃ q t, Rounded (x.significand * 2 ^ x.exponent) q t ∧
      exactly x.toFloat = if x.negative then -((q : ℚ) * 2 ^ t) else q * 2 ^ t := by
  obtain ⟨q, rounded, encoded⟩ := encode_eq positive
  generalize unit x.significand x.exponent = t at rounded encoded
  have small : t ≤ 970 := by
    by_contra large
    have leading := rounded.leading.resolve_left (by omega)
    have power : (2 : ℚ) ^ (1023 : Int) ≤ 2 ^ (52 + t) := zpow_le_zpow_right₀ one_le_two (by omega)
    rw [zpow_add₀ two_ne_zero] at power
    exact absurd (power.trans leading) (not_le.mpr bound)
  obtain ⟨b, decoded, value⟩ := decode_rounded rounded small x.negative
  have fits := rounded.fits
  have bits : BinaryFormat.double.encode x =
      (if x.negative then 2 ^ 63 else 0) + ((t + 1074).toNat * 2 ^ 52 + q) := by
    rw [encoded, min_eq_left (by omega)]
  have size : BinaryFormat.double.encode x < 2 ^ 64 := by
    rw [bits]
    split <;> omega
  obtain ⟨finite, same⟩ := ofBits_eq size (bits ▸ decoded)
  exact ⟨finite, q, t, rounded, same.trans value⟩

theorem zero_toFloat {x : Binary} (zero : x.significand = 0) :
    x.toFloat.isFinite = true ∧ exactly x.toFloat = x.toRat := by
  obtain ⟨negative, n, e⟩ := x
  dsimp only at zero
  subst zero
  have encoded : BinaryFormat.double.encode ⟨negative, 0, e⟩ = if negative then 2 ^ 63 else 0 := by
    rw [BinaryFormat.encode, if_pos rfl]
    rfl
  have least : 0 < 2047 * 2 ^ 52 := by decide
  have decoded := decode_magnitude negative least
  rw [Nat.add_zero, Nat.zero_div, if_pos rfl, Nat.zero_mod] at decoded
  have size : BinaryFormat.double.encode ⟨negative, 0, e⟩ < 2 ^ 64 := by
    rw [encoded]
    split <;> omega
  obtain ⟨finite, same⟩ := ofBits_eq size (encoded ▸ decoded)
  exact ⟨finite, same.trans (by simp [Binary.toRat_eq])⟩

/-- A number that is converted to a double is finite, and it stays on its side of every double. -/
theorem toFloat_monotone {x : Binary} (bound : (x.significand : ℚ) * 2 ^ x.exponent < 2 ^ (1023 : Int)) :
    x.toFloat.isFinite = true ∧ ∀ y : Float, y.isFinite = true →
      (x.toRat ≤ exactly y → exactly x.toFloat ≤ exactly y) ∧
      (exactly y ≤ x.toRat → exactly y ≤ exactly x.toFloat) := by
  rcases Nat.eq_zero_or_pos x.significand with zero | positive
  · obtain ⟨finite, same⟩ := zero_toFloat zero
    exact ⟨finite, fun y _ => ⟨fun le => same ▸ le, fun le => same ▸ le⟩⟩
  · obtain ⟨finite, q, t, rounded, same⟩ := exactly_toFloat positive bound
    refine ⟨finite, fun y finite' => ?_⟩
    have above : (0 : ℚ) < x.significand * 2 ^ x.exponent :=
      mul_pos (Nat.cast_pos.mpr positive) (zpow_pos two_pos _)
    have number := number_of_finite finite'
    rw [same, Binary.toRat_eq, exactly_eq finite']
    cases x.negative with
    | false => exact ⟨rounded.le_value above number, rounded.value_le number⟩
    | true =>
      -- a negative number is rounded as the positive one, with the order turned round
      have le := rounded.le_value above number.neg
      have ge := rounded.value_le number.neg
      rw [number.value_neg] at le ge
      exact ⟨fun h => by simpa using neg_le_neg (ge (by simpa using neg_le_neg h)),
        fun h => by simpa using neg_le_neg (le (by simpa using neg_le_neg h))⟩

/-! ### operations -/

/-- The residual bits of a mantissa that is shifted tell whether anything was shifted out. -/
theorem shifted_bits (n k : Nat) :
    let shifted := ExtendedMantissa.ofMantissaAndAccuracy n .exact >>> k
    shifted.mantissa = n / 2 ^ k ∧ (shifted.roundBit || shifted.stickyBit) = decide (n % 2 ^ k ≠ 0) := by
  change let shifted := k.repeat ExtendedMantissa.shiftRightOne (.ofMantissaAndAccuracy n .exact)
    shifted.mantissa = n / 2 ^ k ∧ (shifted.roundBit || shifted.stickyBit) = decide (n % 2 ^ k ≠ 0)
  induction k with
  | zero => simp [Nat.repeat, ExtendedMantissa.ofMantissaAndAccuracy, Nat.mod_one]
  | succ k ih =>
    obtain ⟨mantissa, bits⟩ := ih
    rw [Nat.repeat]
    simp only [ExtendedMantissa.shiftRightOne, mantissa, bits]
    refine ⟨by rw [Nat.div_div_eq_div_mul, Nat.pow_succ], ?_⟩
    rw [Nat.mod_pow_succ]
    have unit : 0 < 2 ^ k := Nat.two_pow_pos k
    rcases Nat.mod_two_eq_zero_or_one (n / 2 ^ k) with even | odd
    · simp [even]
    · simp [odd]

theorem shift_neighbour (n k : Nat) :
    Neighbour n k (ExtendedMantissa.ofMantissaAndAccuracy n .exact >>> k).roundedMantissa := by
  obtain ⟨mantissa, bits⟩ := shifted_bits n k
  generalize ExtendedMantissa.ofMantissaAndAccuracy n .exact >>> k = shifted at mantissa bits
  obtain ⟨m, roundBit, stickyBit⟩ := shifted
  dsimp only at mantissa bits
  subst mantissa
  cases roundBit with
  | false => cases stickyBit <;> exact .inl rfl
  | true =>
    have rest : n % 2 ^ k ≠ 0 := by simpa using bits
    cases stickyBit with
    | true => exact .inr ⟨rfl, rest⟩
    | false =>
      -- half way between two neighbours it is the even one
      rcases Nat.mod_two_eq_zero_or_one (n / 2 ^ k) with even | odd
      · exact .inl (congrArg (n / 2 ^ k + ·) even)
      · exact .inr ⟨congrArg (n / 2 ^ k + ·) odd, rest⟩

theorem targetExponent_eq (n : Nat) (e : Int) :
    Float.Model.Format.targetExponent .binary64 (Float.Model.totalExponent n e) = unit n e := rfl

theorem unit_shiftLeft {n : Nat} (positive : 0 < n) (e : Int) (j : Nat) : unit (n * 2 ^ j) (e - j) = unit n e := by
  have some : n ≠ 0 := Nat.ne_of_gt positive
  have bits : (n * 2 ^ j).log2 = n.log2 + j := by
    refine (Nat.log2_eq_iff (Nat.mul_ne_zero some (Nat.ne_of_gt (Nat.two_pow_pos j)))).mpr ⟨?_, ?_⟩
    · rw [Nat.pow_add]
      exact Nat.mul_le_mul_right _ (Nat.log2_self_le some)
    · rw [Nat.add_right_comm, Nat.pow_add]
      exact Nat.mul_lt_mul_of_pos_right Nat.lt_log2_self (Nat.two_pow_pos j)
  unfold unit
  rw [bits]
  omega

/-- A rounded number fits its unit, or by a carry it is the least number of the next one. -/
theorem Rounded.unit_eq {x : ℚ} {q : Nat} {t : Int} (rounded : Rounded x q t) (positive : 0 < q) :
    unit q t = if q = 2 ^ 53 then t + 1 else t := by
  have least := rounded.least
  have some : q ≠ 0 := Nat.ne_of_gt positive
  unfold unit
  split
  next carry =>
    rw [carry, Nat.log2_two_pow]
    omega
  next inside =>
    have fits : q.log2 < 53 := (Nat.log2_lt some).mpr (Nat.lt_of_le_of_ne rounded.fits inside)
    have leading : t = -1074 ∨ 52 ≤ q.log2 := rounded.leads.imp_right (Nat.le_log2 some).mpr
    omega

/-- A mantissa is shifted twice: it is rounded between the shifts, which can give it one bit more. -/
theorem roundWithAccuracy_eq (s : Sign) (m : Nat) (e : Int) :
    UnpackedFloat.roundWithAccuracy .binary64 s m e .exact =
      let q := (ExtendedMantissa.ofMantissaAndAccuracy m .exact >>> (unit m e - e).toNat).roundedMantissa
      let t := e + (unit m e - e).toNat
      ofParts s (q / 2 ^ (unit q t - t).toNat) (t + (unit q t - t).toNat) := by
  dsimp only
  rw [← (shifted_bits _ _).1]
  rfl

/-- An operation rounds a number, and carries if it has to. -/
theorem round_rounded (s : Sign) {n : Nat} (e : Int) (positive : 0 < n) :
    ∃ q t, Rounded (n * 2 ^ e) q t ∧ UnpackedFloat.round .binary64 s n e =
      if q = 2 ^ 53 then ofParts s (2 ^ 52) (t + 1) else ofParts s q t := by
  have near := shift_neighbour (n * 2 ^ (e - unit n e).toNat) (unit n e - e).toNat
  have rounded := Rounded.of_neighbour positive near
  refine ⟨_, unit n e, rounded, ?_⟩
  have same := unit_shiftLeft positive e (e - unit n e).toNat
  have shift : (unit n e - (e - (e - unit n e).toNat)).toNat = (unit n e - e).toNat := by omega
  have exponent : e - (e - unit n e).toNat + (unit n e - e).toNat = unit n e := by omega
  rw [UnpackedFloat.round, UnpackedFloat.decreaseExponent, targetExponent_eq, Nat.shiftLeft_eq]
  dsimp only
  rw [roundWithAccuracy_eq, same, shift, exponent]
  generalize (ExtendedMantissa.ofMantissaAndAccuracy (n * 2 ^ (e - unit n e).toNat) .exact >>>
    (unit n e - e).toNat).roundedMantissa = q at rounded ⊢
  generalize unit n e = t at rounded ⊢
  -- the second shift drops the last bit of a carry, and is none otherwise
  dsimp only
  rcases Nat.eq_zero_or_pos q with rfl | some
  · simp [ofParts]
  · rw [rounded.unit_eq some]
    split
    next carry =>
      have one : (t + 1 - t).toNat = 1 := by omega
      rw [one, carry]
      rfl
    next =>
      rw [Int.sub_self]
      simp

theorem value_ofParts (m : Nat) (e : Int) : value (ofParts .positive m e) = m * 2 ^ e := by
  unfold ofParts
  split
  next none => rw [value_zero, none, Nat.cast_zero, zero_mul]
  next some => exact value_positive _

/-- Of two normalized numbers the lesser has no greater exponent. -/
theorem Normalized.exponent_le {m n : Nat} {e k : Int} (first : Normalized m e) (second : Normalized n k)
    (le : (m : ℚ) * 2 ^ e ≤ n * 2 ^ k) : e ≤ k :=
  Int.not_lt.mp fun less => not_lt.mpr le (second.lt_of_exponent first less)

theorem Normalized.number {m n : Nat} {e k : Int} (normalized : Normalized m e) (second : Normalized n k)
    (most : k ≤ 971) (le : (m : ℚ) * 2 ^ e ≤ n * 2 ^ k) : Number (ofParts .positive m e) := by
  unfold ofParts
  split
  · exact .zero _
  · exact .finite _ _ normalized ((normalized.exponent_le second le).trans most)

/-- What is rounded to a double is at most a double that it was at most before. -/
theorem round_le {n m : Nat} {e k : Int} (positive : 0 < n) (normalized : Normalized m k) (most : k ≤ 971)
    (le : (n : ℚ) * 2 ^ e ≤ m * 2 ^ k) : Number (UnpackedFloat.round .binary64 .positive n e) ∧
      value (UnpackedFloat.round .binary64 .positive n e) ≤ m * 2 ^ k := by
  obtain ⟨q, t, rounded, same⟩ := round_rounded .positive e positive
  have bound := rounded.le normalized le
  rw [same]
  split
  next carry =>
    have least := rounded.least
    have leading : Normalized (2 ^ 52) (t + 1) := ⟨by decide, by omega, .inr (le_refl _)⟩
    rw [carry, ← carry_eq] at bound
    exact ⟨leading.number normalized most bound, (value_ofParts _ _).trans_le bound⟩
  next inside =>
    have fits : Normalized q t :=
      ⟨Nat.lt_of_le_of_ne rounded.fits inside, rounded.least, rounded.leads⟩
    exact ⟨fits.number normalized most bound, (value_ofParts _ _).trans_le bound⟩

/-- A double without a smaller one that is positive is at most that double. -/
theorem sub_le {m n : Nat} {e k : Int} (some : 0 < m) (other : 0 < n) (first : Normalized m e) (most : e ≤ 971)
    (less : (n : ℚ) * 2 ^ k < m * 2 ^ e) :
    let difference := UnpackedFloat.sub .binary64 (.finite .positive m e some) (.finite .positive n k other)
    Number difference ∧ value difference ≤ m * 2 ^ e := by
  intro difference
  have left := multiple (m := m) (min_le_left e k)
  have right := multiple (m := n) (min_le_right e k)
  have power : (0 : ℚ) < 2 ^ min e k := zpow_pos two_pos _
  -- both numbers are whole in the lesser of the two units
  generalize larger : m * 2 ^ (e - min e k).toNat = a at left
  generalize smaller : n * 2 ^ (k - min e k).toNat = b at right
  have order : b < a := by
    rw [left, right] at less
    exact_mod_cast lt_of_mul_lt_mul_right less power.le
  have same : difference = UnpackedFloat.round .binary64 .positive (a - b) (min e k) := by
    have gap : compare ((a : Int) - b) 0 = .gt := compare_gt_iff_gt.mpr (by omega)
    have size : ((a : Int) - b).toNat = a - b := by omega
    have units : difference = UnpackedFloat.normalize .binary64 ((a : Int) - b) (min e k) .positive := by
      rw [← larger, ← smaller, ← Nat.shiftLeft_eq, ← Nat.shiftLeft_eq]
      rfl
    rw [units, UnpackedFloat.normalize, gap, size]
  rw [same]
  refine round_le (Nat.sub_pos_of_lt order) first most ?_
  rw [left]
  have part : ((a - b : Nat) : ℚ) ≤ a := by exact_mod_cast Nat.sub_le a b
  gcongr

/-- A double that is greater than another, which is not negative. -/
inductive Exceeds : UnpackedFloat → UnpackedFloat → Prop
  | zero {u : UnpackedFloat} (s : Sign) : Positive u → Exceeds u (.zero s)
  | infinity {n : Nat} {k : Int} (other : 0 < n) : Exceeds (.infinity .positive) (.finite .positive n k other)
  | finite {m n : Nat} {e k : Int} (some : 0 < m) (other : 0 < n) :
      Exceeds (.finite .positive m e some) (.finite .positive n k other)

theorem exceeds {u v : UnpackedFloat} (forward : UnpackedFloat.le (.zero .positive) v = true)
    (less : v.lt u = true) : Exceeds u v := by
  cases v with
  | notANumber => cases forward
  | infinity s =>
    cases s with
    | negative => cases forward
    | positive =>
      -- nothing exceeds infinity
      cases u with
      | notANumber | zero _ => cases less
      | infinity s' | finite s' _ _ _ => cases s' <;> cases less
  | zero s =>
    refine .zero s ?_
    cases u with
    | notANumber | zero _ => cases less
    | infinity s' =>
      cases s' with
      | negative => cases less
      | positive => exact .infinity
    | finite s' m e some =>
      cases s' with
      | negative => cases less
      | positive => exact .finite m e some
  | finite s n k other =>
    cases s with
    | negative => cases forward
    | positive =>
      cases u with
      | notANumber | zero _ => cases less
      | infinity s' =>
        cases s' with
        | negative => cases less
        | positive => exact .infinity other
      | finite s' m e some =>
        cases s' with
        | negative => cases less
        | positive => exact .finite some other

theorem Exceeds.positive {u v : UnpackedFloat} (exceeds : Exceeds u v) : Positive u := by
  cases exceeds with
  | zero _ above => exact above
  | infinity _ => exact .infinity
  | finite some _ => exact .finite _ _ some

theorem Exceeds.sub_le {u v : UnpackedFloat} (exceeds : Exceeds u v) (less : v.lt u = true)
    (first : u.isFinite = true → Number u) (second : v.isFinite = true → Number v) :
    UnpackedFloat.sub .binary64 u v = u ∨ Number u ∧ Number (UnpackedFloat.sub .binary64 u v) ∧
      value (UnpackedFloat.sub .binary64 u v) ≤ value u := by
  cases exceeds with
  | zero s above =>
    left
    cases above <;> rfl
  | infinity other => exact .inl rfl
  | finite some other =>
    right
    have number := first rfl
    rw [(second rfl).lt_iff number, value_positive, value_positive] at less
    cases number with
    | finite _ _ normalized most =>
      rw [value_positive]
      exact ⟨.finite _ _ normalized most, Double.sub_le some other normalized most less⟩

/-- A double that is greater than another, which is not negative, does not grow when it is subtracted. -/
theorem not_lt_sub {x y : Float} (forward : 0 ≤ y) (less : y < x) : ¬ x < x - y := by
  have difference :
      x - y = .ofModel (.pack (UnpackedFloat.sub .binary64 x.toModel.unpack y.toModel.unpack)) := rfl
  rw [le_iff, zero_unpack] at forward
  rw [lt_iff] at less
  have greater := exceeds forward less
  rcases greater.sub_le less number_of_finite number_of_finite with same | ⟨first, second, le⟩
  · rw [difference, same, pack_toModel]
    exact lt_irrefl ((positive_iff x).mpr greater.positive)
  · have packed : (x - y).toModel.unpack = _ := unpack_pack second
    rw [lt_iff, packed, first.lt_iff second]
    exact not_lt.mpr le

end Double

end Gameplay
