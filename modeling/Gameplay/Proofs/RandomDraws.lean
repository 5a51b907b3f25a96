import Gameplay.Proofs.Rounding
import Gameplay.Random

/-!
# Random whole numbers

A draw of a whole number rounds its bounds inwards, keeps them within 64 bits, draws, and rounds what it has
drawn to a double. None of these steps leaves the range by itself: no double lies between a bound and the whole
number that it is rounded to, and no double between a whole number and the double that this is rounded to. Only
a range that lies wholly beyond 64 bits is lost.

## Main result

`draw_whole`: what is drawn, for any bounds.

## Proof strategy

`bound` saturates the exact floor or ceiling (`bound_ceil`, `bound_floor`), `between` stays between its bounds
(`between_mem`), and the conversion back to a double stays on its side of every double
(`Double.toFloat_monotone`). Where saturation could make a range out of none, the bounds are so large that they
are whole numbers themselves (`Double.Number.isWhole`).
-/

namespace Gameplay

/-! ### floors and ceilings -/

namespace Binary

theorem floor_eq (x : Binary) : x.floor = ⌊x.toRat⌋ := by
  have natural (n : Nat) : (2 : ℚ) ^ (n : Int) = (2 ^ n : Nat) := by
    rw [zpow_natCast, Nat.cast_pow, Nat.cast_two]
  unfold floor toRat
  generalize x.signed = s
  split
  next whole =>
    obtain ⟨n, same⟩ := Int.eq_ofNat_of_zero_le whole
    rw [same, natural, Int.toNat_natCast]
    exact_mod_cast (Int.floor_intCast (R := ℚ) (s * (2 ^ n : Nat))).symm
  next fraction =>
    obtain ⟨n, same⟩ := Int.eq_ofNat_of_zero_le (Int.neg_nonneg.mpr (Int.le_of_not_le fraction))
    have exponent : x.exponent = -n := by omega
    rw [exponent, neg_neg, zpow_neg, natural, Int.toNat_natCast, ← div_eq_mul_inv,
      Rat.floor_intCast_div_natCast]
    rfl

theorem ceil_eq (x : Binary) : x.ceil = ⌈x.toRat⌉ := by
  have turned : ({ x with negative := !x.negative } : Binary).toRat = -x.toRat := by
    rw [toRat_eq, toRat_eq]
    cases x.negative <;> simp
  rw [ceil, floor_eq, turned, Int.floor_neg, neg_neg]

theorem toRat_ofInt (n : Int) : (ofInt n).toRat = n := by
  rw [toRat_eq]
  rcases Int.lt_or_le n 0 with negative | natural
  · simp [ofInt, negative, Nat.cast_natAbs, abs_of_neg negative]
  · simp [ofInt, Int.not_lt.mpr natural, Nat.cast_natAbs, abs_of_nonneg natural]

end Binary

namespace Random

/-- A whole number within 64 bits, the closest one if it needs more. -/
def saturated (n : Int) : Int := max (-2 ^ 63) (min n (2 ^ 63 - 1))

theorem saturated_mem (n : Int) : -2 ^ 63 ≤ saturated n ∧ saturated n ≤ 2 ^ 63 - 1 := by
  unfold saturated
  omega

theorem saturated_mono {m n : Int} (le : m ≤ n) : saturated m ≤ saturated n := by
  unfold saturated
  omega

section

variable {x : Float} (finite : x.isFinite = true)
include finite

/-- A finite double has an exact value. -/
theorem ofFloat?_finite : ∃ b, Binary.ofFloat? x = some b ∧ b.toRat = exactly x := by
  obtain ⟨b, found⟩ := Double.number?_isSome (Double.number_of_finite finite)
  rw [← Double.ofFloat?_eq] at found
  exact ⟨b, found, by rw [exactly, found]⟩

theorem bound_ceil : bound Binary.ceil x = saturated ⌈exactly x⌉ := by
  obtain ⟨b, found, same⟩ := ofFloat?_finite finite
  rw [← same, ← Binary.ceil_eq, bound, found]
  rfl

theorem bound_floor : bound Binary.floor x = saturated ⌊exactly x⌋ := by
  obtain ⟨b, found, same⟩ := ofFloat?_finite finite
  rw [← same, ← Binary.floor_eq, bound, found]
  rfl

end

/-! ### draws -/

/-- However many tries are left, and also when they run out, what is drawn is less than `n`. -/
theorem belowWithin_lt {n least : Nat} (positive : 0 < n) (tries : Nat) (r : Random) :
    (belowWithin n least tries r).1 < n := by
  induction tries generalizing r with
  | zero => exact positive
  | succ tries ih =>
    rw [belowWithin]
    generalize r.next = drawn
    obtain ⟨word, r⟩ := drawn
    dsimp only
    split
    · exact ih r
    · -- a word is less than two to the power 64
      exact Nat.div_lt_of_lt_mul (Nat.mul_lt_mul_of_pos_right word.toNat_lt positive)

theorem below_lt {n : Nat} (positive : 0 < n) (r : Random) : (below n r).1 < n := by
  unfold below
  -- the number of tries is too large to be looked at
  generalize period = tries
  exact belowWithin_lt positive tries r

/-- A draw between two whole numbers of 64 bits is one of the numbers from the first to the last. -/
theorem between_mem {first last : Int} (le : first ≤ last) (least : -2 ^ 63 ≤ first) (most : last ≤ 2 ^ 63 - 1)
    (r : Random) : first ≤ (between first last r).1 ∧ (between first last r).1 ≤ last := by
  unfold between
  extract_lets count
  have count_eq : (count : Int) = last - first + 1 := Int.toNat_of_nonneg (by omega)
  clear_value count
  have inside := below_lt (n := count) (by omega) r
  -- both draws are taken apart before anything is computed: there are too many tries to unfold
  generalize r.below count = picked at inside ⊢
  obtain ⟨n, after⟩ := picked
  generalize r.next = drawn
  obtain ⟨word, after'⟩ := drawn
  have low : -2 ^ 63 ≤ word.toInt64.toInt := word.toInt64.le_toInt
  have high : word.toInt64.toInt < 2 ^ 63 := word.toInt64.toInt_lt
  dsimp only at inside ⊢
  split
  next full =>
    -- every word of 64 bits is in the range
    have full : count = 2 ^ 64 := full
    dsimp only
    omega
  · dsimp only
    omega

/-- Bounds given in either order are used as the lesser and the greater. -/
theorem bounds_ordered {a b : Float} (first : a.isFinite = true) (second : b.isFinite = true) :
    ∃ low high : Float, (if a ≤ b then (a, b) else (b, a)) = (low, high) ∧
      low.isFinite = true ∧ high.isFinite = true ∧
      exactly low = min (exactly a) (exactly b) ∧ exactly high = max (exactly a) (exactly b) := by
  by_cases le : a ≤ b
  · have order := (Double.exactly_le first second).mp le
    exact ⟨a, b, if_pos le, first, second, (min_eq_left order).symm, (max_eq_right order).symm⟩
  · have order := (not_le.mp (mt (Double.exactly_le first second).mpr le)).le
    exact ⟨b, a, if_neg le, second, first, (min_eq_right order).symm, (max_eq_left order).symm⟩

/-- Either no whole number is left between the bounds, or one is drawn. -/
theorem draw_cases (r : Random) {a b : Float} (first : a.isFinite = true) (second : b.isFinite = true) :
    ∃ low high : Float, low.isFinite = true ∧ high.isFinite = true ∧
      exactly low = min (exactly a) (exactly b) ∧ exactly high = max (exactly a) (exactly b) ∧
      if saturated ⌊exactly high⌋ < saturated ⌈exactly low⌉ then (r.draw a b true).1 = low
      else ∃ n : Int, saturated ⌈exactly low⌉ ≤ n ∧ n ≤ saturated ⌊exactly high⌋ ∧
        (r.draw a b true).1 = (Binary.ofInt n).toFloat := by
  obtain ⟨low, high, ordered, finite, finite', least, most⟩ := bounds_ordered first second
  refine ⟨low, high, finite, finite', least, most, ?_⟩
  have inside (le : saturated ⌈exactly low⌉ ≤ saturated ⌊exactly high⌋) :=
    between_mem le (saturated_mem _).1 (saturated_mem _).2 r
  rw [← bound_ceil finite, ← bound_floor finite'] at inside ⊢
  rw [draw, ordered]
  -- fractions are drawn by as many tries as whole numbers: neither is looked into from here on
  obtain ⟨fraction, same⟩ : ∃ fraction, fraction = unit := ⟨_, rfl⟩
  obtain ⟨pick, same'⟩ : ∃ pick, pick = between := ⟨_, rfl⟩
  rw [← same'] at inside
  rw [← same, ← same']
  dsimp only [if_true]
  split
  · rfl
  next room =>
    obtain ⟨least, most⟩ := inside (not_lt.mp room)
    exact ⟨_, least, most, rfl⟩

/-- A whole number of 64 bits that is converted to a double stays whole, and on its side of every double. -/
theorem ofInt_toFloat {n : Int} (least : -2 ^ 63 ≤ n) (most : n < 2 ^ 63) :
    (Binary.ofInt n).toFloat.isFinite = true ∧ (∃ k : Int, exactly (Binary.ofInt n).toFloat = k) ∧
      ∀ y : Float, y.isFinite = true →
        ((n : ℚ) ≤ exactly y → exactly (Binary.ofInt n).toFloat ≤ exactly y) ∧
        (exactly y ≤ n → exactly y ≤ exactly (Binary.ofInt n).toFloat) := by
  have size : n.natAbs ≤ 2 ^ 63 := by omega
  have bound : ((Binary.ofInt n).significand : ℚ) * 2 ^ (Binary.ofInt n).exponent < 2 ^ (1023 : Int) := by
    calc ((n.natAbs : Nat) : ℚ) * 2 ^ (0 : Int)
        = n.natAbs := by rw [zpow_zero, mul_one]
      _ ≤ (2 ^ 63 : Nat) := Nat.cast_le.mpr size
      _ = 2 ^ (63 : Int) := by norm_num
      _ < 2 ^ (1023 : Int) := zpow_lt_zpow_right₀ one_lt_two (by decide)
  obtain ⟨finite, sides⟩ := Double.toFloat_monotone bound
  rw [Binary.toRat_ofInt] at sides
  refine ⟨finite, ?_, sides⟩
  -- zero has no leading digit to be rounded at
  rcases Nat.eq_zero_or_pos (Binary.ofInt n).significand with zero | positive
  · exact ⟨n, by rw [(Double.zero_toFloat zero).2, Binary.toRat_ofInt]⟩
  · obtain ⟨_, q, t, rounded, same⟩ := Double.exactly_toFloat positive bound
    have units : ((Binary.ofInt n).significand : ℚ) * 2 ^ (Binary.ofInt n).exponent =
        (Binary.ofInt n).significand := by rw [show (Binary.ofInt n).exponent = 0 from rfl, zpow_zero, mul_one]
    rw [units] at rounded
    obtain ⟨k, whole⟩ := rounded.isWhole
    rw [same, whole]
    split
    · exact ⟨-k, by push_cast; rfl⟩
    · exact ⟨k, by push_cast; rfl⟩

/-- The greatest whole number of 64 bits has too many bits for a double. -/
theorem greatest_toFloat : exactly (Binary.ofInt (2 ^ 63 - 1)).toFloat = 2 ^ 63 := by decide +kernel

theorem least_toFloat : exactly (Binary.ofInt (-2 ^ 63)).toFloat = -2 ^ 63 := by decide +kernel

/-- A double as large as that has no bits for a fraction. -/
theorem whole_of_large {x : Float} (finite : x.isFinite = true) (large : 2 ^ 62 ≤ |exactly x|) :
    ∃ n : Int, exactly x = n := by
  rw [Double.exactly_eq finite] at large ⊢
  exact (Double.number_of_finite finite).isWhole (le_trans (by norm_num) large)

section

variable {low high : Float} {n : Int}

/-- The saturated bounds leave room if a whole number lies between the bounds, and only then: bounds that are out of
reach of the 64 bits are whole numbers themselves. -/
theorem room_iff (finite : low.isFinite = true) (finite' : high.isFinite = true)
    (order : exactly low ≤ exactly high) :
    saturated ⌈exactly low⌉ ≤ saturated ⌊exactly high⌋ ↔ ∃ n : Int, exactly low ≤ n ∧ n ≤ exactly high := by
  constructor
  · intro room
    rcases Int.lt_or_le ⌊exactly high⌋ ⌈exactly low⌉ with empty | le
    · have far : 2 ^ 63 - 1 ≤ ⌊exactly high⌋ ∨ ⌈exactly low⌉ ≤ -2 ^ 63 := by
        unfold saturated at room
        omega
      rcases far with above | below
      · -- the upper bound is one of the whole numbers
        have large := Int.le_floor.mp above
        push_cast at large
        obtain ⟨n, same⟩ := whole_of_large finite' (le_trans (by linarith) (le_abs_self _))
        exact ⟨n, same ▸ order, same.ge⟩
      · -- the lower bound is
        have large := Int.ceil_le.mp below
        push_cast at large
        obtain ⟨n, same⟩ := whole_of_large finite (le_trans (by linarith) (neg_le_abs _))
        exact ⟨n, same.le, same ▸ order⟩
    · exact ⟨_, Int.le_ceil _, Int.le_floor.mp le⟩
  · rintro ⟨n, least, most⟩
    exact saturated_mono ((Int.ceil_le.mpr least).trans (Int.le_floor.mpr most))

/-- What is drawn between the saturated bounds is between the bounds, unless these are out of reach. -/
theorem toFloat_mem (finite : low.isFinite = true) (finite' : high.isFinite = true)
    (least : saturated ⌈exactly low⌉ ≤ n) (most : n ≤ saturated ⌊exactly high⌋)
    (near : exactly low ≤ 2 ^ 63) (near' : -2 ^ 63 ≤ exactly high) :
    exactly low ≤ exactly (Binary.ofInt n).toFloat ∧ exactly (Binary.ofInt n).toFloat ≤ exactly high := by
  have first := saturated_mem ⌈exactly low⌉
  have last := saturated_mem ⌊exactly high⌋
  obtain ⟨_, _, sides⟩ := ofInt_toFloat (n := n) (by omega) (by omega)
  constructor
  · rcases Int.lt_or_le n ⌈exactly low⌉ with less | le
    · -- the bound does not fit, so that the greatest number was drawn
      have greatest : n = 2 ^ 63 - 1 := by
        unfold saturated at least
        omega
      rw [greatest, greatest_toFloat]
      exact near
    · exact (sides low finite).2 (Int.ceil_le.mp le)
  · have floor : -2 ^ 63 ≤ ⌊exactly high⌋ := Int.le_floor.mpr (by exact_mod_cast near')
    have le : n ≤ ⌊exactly high⌋ := by
      unfold saturated at most
      omega
    exact (sides high finite').1 (Int.le_floor.mp le)

/-- Beyond 64 bits only the greatest number is left to draw. -/
theorem toFloat_above (far : 2 ^ 63 < exactly low) (least : saturated ⌈exactly low⌉ ≤ n)
    (most : n ≤ saturated ⌊exactly high⌋) : exactly (Binary.ofInt n).toFloat = 2 ^ 63 := by
  have ceil : 2 ^ 63 < ⌈exactly low⌉ := Int.lt_ceil.mpr (by exact_mod_cast far)
  have greatest : n = 2 ^ 63 - 1 := by
    unfold saturated at least most
    omega
  rw [greatest, greatest_toFloat]

theorem toFloat_below (far : exactly high < -2 ^ 63) (least : saturated ⌈exactly low⌉ ≤ n)
    (most : n ≤ saturated ⌊exactly high⌋) : exactly (Binary.ofInt n).toFloat = -2 ^ 63 := by
  have floor : ⌊exactly high⌋ < -2 ^ 63 := Int.floor_lt.mpr (by exact_mod_cast far)
  have smallest : n = -2 ^ 63 := by
    unfold saturated at least most
    omega
  rw [smallest, least_toFloat]

end

/-- A draw of a whole number between two bounds, in either order. If a whole number lies between them, one that
does is drawn, and else the smaller bound. Only a range that lies wholly beyond 64 bits gives the end of these
instead, rounded to a double. -/
theorem draw_whole (r : Random) {a b : Float} (first : a.isFinite = true) (second : b.isFinite = true) :
    let low := min (exactly a) (exactly b)
    let high := max (exactly a) (exactly b)
    let x := (r.draw a b true).1
    x.isFinite = true ∧
    (low ≤ 2 ^ 63 → -2 ^ 63 ≤ high → (∃ n : Int, low ≤ n ∧ n ≤ high) →
      (∃ n : Int, exactly x = n) ∧ low ≤ exactly x ∧ exactly x ≤ high) ∧
    ((¬ ∃ n : Int, low ≤ n ∧ n ≤ high) → exactly x = low) ∧
    (2 ^ 63 < low → exactly x = 2 ^ 63) ∧ (high < -2 ^ 63 → exactly x = -2 ^ 63) := by
  intro l h x
  obtain ⟨low, high, finite, finite', least, most, drawn⟩ := draw_cases r first second
  have order : exactly low ≤ exactly high := least ▸ most ▸ min_le_max
  have least : l = exactly low := least.symm
  have most : h = exactly high := most.symm
  change if _ then x = low else ∃ n : Int, _ ∧ _ ∧ x = (Binary.ofInt n).toFloat at drawn
  clear_value l h x
  subst least most
  rw [← room_iff finite finite' order]
  split at drawn
  next empty =>
    subst drawn
    have none := not_le.mpr empty
    refine ⟨finite, fun _ _ room => absurd room none, fun _ => rfl, fun far => ?_, fun far => ?_⟩
    · -- so far out a bound is a whole number
      obtain ⟨n, same⟩ := whole_of_large finite (le_trans (by linarith) (le_abs_self _))
      exact absurd ((room_iff finite finite' order).mpr ⟨n, same.le, same ▸ order⟩) none
    · obtain ⟨n, same⟩ := whole_of_large finite' (le_trans (by linarith) (neg_le_abs _))
      exact absurd ((room_iff finite finite' order).mpr ⟨n, same ▸ order, same.ge⟩) none
  next room =>
    obtain ⟨n, least, most, rfl⟩ := drawn
    have first := saturated_mem ⌈exactly low⌉
    have last := saturated_mem ⌊exactly high⌋
    obtain ⟨stays, whole, _⟩ := ofInt_toFloat (n := n) (by omega) (by omega)
    exact ⟨stays, fun near near' _ => ⟨whole, toFloat_mem finite finite' least most near near'⟩,
      fun none => absurd (not_lt.mp room) none, fun far => toFloat_above far least most,
      fun far => toFloat_below far least most⟩

/-- A throw of a die. -/
theorem draw_whole_die : (1 : Float).isFinite = true ∧ (6 : Float).isFinite = true ∧
    ∃ n : Int, exactly ((ofSeed 7).draw 6 1 true).1 = n ∧ 1 ≤ n ∧ n ≤ 6 := by
  have one : (1 : Float).isFinite = true := by decide +kernel
  have six : (6 : Float).isFinite = true := by decide +kernel
  obtain ⟨_, inside, _⟩ := draw_whole (ofSeed 7) six one
  have low : min (exactly 6) (exactly 1) = 1 := by decide +kernel
  have high : max (exactly 6) (exactly 1) = 6 := by decide +kernel
  rw [low, high] at inside
  obtain ⟨⟨n, same⟩, least, most⟩ := inside (by norm_num) (by norm_num) ⟨1, by norm_num, by norm_num⟩
  rw [same] at least most
  exact ⟨one, six, n, same, by exact_mod_cast least, by exact_mod_cast most⟩

/-- A range beyond 64 bits is lost, although its bounds are whole numbers. -/
theorem draw_whole_refuted : ¬ ∀ (r : Random) (a b : Float), a.isFinite = true → b.isFinite = true →
    let low := min (exactly a) (exactly b)
    let high := max (exactly a) (exactly b)
    (∃ n : Int, low ≤ n ∧ n ≤ high) →
      low ≤ exactly (r.draw a b true).1 ∧ exactly (r.draw a b true).1 ≤ high := by
  intro inRange
  have finite : (1e19 : Float).isFinite = true := by decide +kernel
  have size : exactly 1e19 = (10 ^ 19 : Int) := by decide +kernel
  have far : (2 : ℚ) ^ 63 < (10 ^ 19 : Int) := by norm_num
  obtain ⟨inside, _⟩ := inRange (ofSeed 1) 1e19 1e19 finite finite
    ⟨10 ^ 19, by rw [min_self, size], by rw [max_self, size]⟩
  obtain ⟨low, high, finite, finite', least, most, drawn⟩ := draw_cases (ofSeed 1) finite finite
  rw [min_self] at least inside
  rw [max_self] at most
  have room := (room_iff finite finite' (least.trans most.symm).le).mpr
    ⟨10 ^ 19, by rw [least, size], by rw [most, size]⟩
  rw [if_neg (not_lt.mpr room)] at drawn
  obtain ⟨n, above, below, same⟩ := drawn
  rw [same, toFloat_above (by rwa [least, size]) above below, size] at inside
  exact absurd far (not_lt.mpr inside)

end Random

end Gameplay
