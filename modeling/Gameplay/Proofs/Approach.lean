import Mathlib.Algebra.Order.Floor.Semiring
import Mathlib.Data.Rat.Floor
import Mathlib.Logic.Function.Iterate
import Mathlib.Tactic.Ring
import Gameplay.Proofs.ExactTime

/-!
# Moving toward a target

With coordinates read as exact rationals, a step toward a target goes along the straight way there and as far as
the speed allows, or onto the target. Only points with a rational distance are considered: the root of their
squared distance is exact, and so it is for every point on the way.

## Main result

`approach_on_schedule`: a step goes by the speed, or by the distance if that is less, and arrives iff the target
is within reach. Repeated steps take off the speed each, so they arrive after as many steps as the speed goes
into the distance, rounded up, and stay there.

## Proof strategy

A step leads to a share of the way (`approach_eq`), and shares of the way have shares of the distance on either
side (`Apart.along`). So a step leaves the distance less the speed, to which the next step applies again.
-/

namespace Gameplay

namespace Vec

/-- Two points lie at a distance from each other. -/
structure Apart (a b : Vec ℚ) (distance : ℚ) : Prop where
  nonneg : 0 ≤ distance
  square : distance ^ 2 = (b.x - a.x) ^ 2 + (b.y - a.y) ^ 2

/-- The point at a share of the straight way from one point to another. -/
def along (a b : Vec ℚ) (share : ℚ) : Vec ℚ := ⟨a.x + share * (b.x - a.x), a.y + share * (b.y - a.y)⟩

/-- A point lies on the segment between two others. -/
def Between (p a b : Vec ℚ) : Prop := ∃ share, 0 ≤ share ∧ share ≤ 1 ∧ p = a.along b share

variable {a b target : Vec ℚ} {distance speed : ℚ}

/-! ### distances -/

theorem Apart.eq_iff (apart : a.Apart b distance) : a = b ↔ distance = 0 := by
  have squares := apart.square
  constructor
  · rintro rfl
    have nothing : distance ^ 2 = 0 := by rw [squares]; ring
    exact pow_eq_zero_iff two_ne_zero |>.mp nothing
  · rintro rfl
    -- a sum of squares is zero only if both are
    have x : b.x - a.x = 0 := by nlinarith [sq_nonneg (b.x - a.x), sq_nonneg (b.y - a.y)]
    have y : b.y - a.y = 0 := by nlinarith [sq_nonneg (b.x - a.x), sq_nonneg (b.y - a.y)]
    obtain ⟨ax, ay⟩ := a
    obtain ⟨bx, by_⟩ := b
    simp only [sub_eq_zero] at x y
    rw [x, y]

/-- A point on the way divides the distance by its share. -/
theorem Apart.along (apart : a.Apart b distance) {share : ℚ} (forward : 0 ≤ share) (upTo : share ≤ 1) :
    a.Apart (a.along b share) (share * distance) ∧ (a.along b share).Apart b ((1 - share) * distance) := by
  have squares := apart.square
  constructor
  · refine ⟨mul_nonneg forward apart.nonneg, ?_⟩
    calc (share * distance) ^ 2
      _ = share ^ 2 * ((b.x - a.x) ^ 2 + (b.y - a.y) ^ 2) := by rw [mul_pow, squares]
      _ = _ := by simp only [Vec.along]; ring
  · refine ⟨mul_nonneg (sub_nonneg.mpr upTo) apart.nonneg, ?_⟩
    calc ((1 - share) * distance) ^ 2
      _ = (1 - share) ^ 2 * ((b.x - a.x) ^ 2 + (b.y - a.y) ^ 2) := by rw [mul_pow, squares]
      _ = _ := by simp only [Vec.along]; ring

/-- The length of a displacement is exact if it is rational. -/
theorem Apart.length_eq (apart : a.Apart b distance) : (b - a).length = distance := by
  have squares : (b.x - a.x) * (b.x - a.x) + (b.y - a.y) * (b.y - a.y) = distance * distance := by
    linarith [apart.square]
  calc (b - a).length
    _ = Rat.sqrt ((b.x - a.x) * (b.x - a.x) + (b.y - a.y) * (b.y - a.y)) := rfl
    _ = |distance| := by rw [squares, Rat.sqrt_eq]
    _ = distance := abs_of_nonneg apart.nonneg

/-! ### one step -/

/-- The share of a way that a step goes. -/
def share (distance speed : ℚ) : ℚ := if distance ≤ speed then 1 else speed / distance

theorem share_mul (forward : 0 ≤ speed) : share distance speed * distance = min speed distance := by
  unfold share
  split
  next within => rw [one_mul, min_eq_right within]
  next beyond =>
    have away : distance ≠ 0 := by linarith
    rw [div_mul_cancel₀ speed away, min_eq_left (le_of_not_ge beyond)]

theorem share_mem (distance : ℚ) (forward : 0 ≤ speed) :
    0 ≤ share distance speed ∧ share distance speed ≤ 1 := by
  unfold share
  split
  · exact ⟨zero_le_one, le_refl 1⟩
  next beyond =>
    have further : 0 < distance := by linarith
    exact ⟨div_nonneg forward further.le, (div_le_one further).mpr (le_of_not_ge beyond)⟩

/-- A step goes the whole way if the target is within reach, else the share of it that the speed makes up. -/
theorem approach_eq (apart : a.Apart target distance) (forward : 0 ≤ speed) :
    a.approach target speed = a.along target (share distance speed) := by
  unfold approach share
  simp only [apart.length_eq]
  by_cases within : distance ≤ speed
  · rw [if_pos (.inl within), if_pos within]
    obtain ⟨x, y⟩ := target
    simp only [along, one_mul, add_sub_cancel]
  · -- the distance is not zero then, which is within reach at any speed
    have away : ¬ (distance ≤ speed ∨ Scalar.same distance 0 = true) := by
      rintro (reached | zero)
      · exact within reached
      · simp only [Scalar.same, Bool.and_eq_true, decide_eq_true_eq] at zero
        have none : distance ≤ 0 := zero.1
        linarith
    rw [if_neg away, if_neg within]
    have across : a.x + (target.x - a.x) / distance * speed = a.x + speed / distance * (target.x - a.x) := by ring
    have down : a.y + (target.y - a.y) / distance * speed = a.y + speed / distance * (target.y - a.y) := by ring
    calc a + ((target - a).shrink distance).scale speed
      _ = ⟨a.x + (target.x - a.x) / distance * speed, a.y + (target.y - a.y) / distance * speed⟩ := rfl
      _ = a.along target (speed / distance) := by rw [across, down, along]

/-- A step leaves the distance less the speed, and nothing if that is less than nothing. -/
theorem approach_apart (apart : a.Apart target distance) (forward : 0 ≤ speed) :
    (a.approach target speed).Apart target (max 0 (distance - speed)) := by
  obtain ⟨least, most⟩ := share_mem distance forward
  have left : (1 - share distance speed) * distance = max 0 (distance - speed) := by
    rw [sub_mul, one_mul, share_mul forward]
    rcases le_total speed distance with beyond | within
    · rw [min_eq_left beyond, max_eq_right (sub_nonneg.mpr beyond)]
    · rw [min_eq_right within, max_eq_left (sub_nonpos.mpr within), sub_self]
  rw [approach_eq apart forward, ← left]
  exact (apart.along least most).2

/-! ### repeated steps -/

/-- With each step the distance becomes less by the speed, until none is left. -/
theorem approaches_apart (apart : a.Apart target distance) (forward : 0 ≤ speed) (n : ℕ) :
    ((·.approach target speed)^[n] a).Apart target (max 0 (distance - n * speed)) := by
  -- each step is one from where the steps before it led
  induction n with
  | zero => simpa [max_eq_right apart.nonneg] using apart
  | succ n ih =>
    have step := approach_apart ih forward
    have less : max 0 (max 0 (distance - n * speed) - speed) = max 0 (distance - (n + 1 : ℕ) * speed) := by
      have further : distance - (n + 1 : ℕ) * speed = distance - n * speed - speed := by push_cast; ring
      rcases le_total 0 (distance - n * speed) with away | there
      · rw [max_eq_right away, further]
      · -- at the target a step leaves nothing again
        rw [max_eq_left there, max_eq_left (by linarith), max_eq_left (by linarith)]
    rw [Function.iterate_succ_apply', ← less]
    exact step

/-- A step at a speed goes along the straight way to the target: as far as the speed, or as far as the target,
which it reaches iff it is no further. Repeated at a positive speed, steps leave the distance less what they
went, so they are at the target from as many steps on as the speed goes into the distance, rounded up, and not
before. -/
theorem approach_on_schedule (apart : a.Apart target distance) :
    (∀ speed, 0 ≤ speed →
      (a.approach target speed).Between a target ∧
      a.Apart (a.approach target speed) (min speed distance) ∧
      (a.approach target speed = target ↔ distance ≤ speed)) ∧
    ∀ speed, 0 < speed → ∀ n : ℕ,
      ((·.approach target speed)^[n] a).Apart target (max 0 (distance - n * speed)) ∧
      ((·.approach target speed)^[n] a = target ↔ ⌈distance / speed⌉₊ ≤ n) := by
  constructor
  · intro speed forward
    obtain ⟨least, most⟩ := share_mem distance forward
    refine ⟨⟨_, least, most, approach_eq apart forward⟩, ?_, ?_⟩
    · rw [approach_eq apart forward, ← share_mul forward]
      exact (apart.along least most).1
    · rw [(approach_apart apart forward).eq_iff, max_eq_left_iff, sub_nonpos]
  · intro speed forward n
    -- at the target is where nothing of the distance is left
    have left := approaches_apart apart forward.le n
    refine ⟨left, ?_⟩
    rw [left.eq_iff, max_eq_left_iff, sub_nonpos, Nat.ceil_le, div_le_iff₀ forward]

/-- Five units away at a speed of two: the third step arrives, and the second does not. -/
theorem approach_on_schedule_diagonal :
    let a : Vec ℚ := ⟨0, 0⟩
    let target : Vec ℚ := ⟨3, 4⟩
    a.Apart target 5 ∧ a.Apart (a.approach target 2) 2 ∧
      (·.approach target 2)^[2] a ≠ target ∧ (·.approach target 2)^[3] a = target := by
  intro a target
  have apart : a.Apart target 5 := ⟨by norm_num, by norm_num [a, target]⟩
  have least : ⌈(5 : ℚ) / 2⌉₊ = 3 := (Nat.ceil_eq_iff (by decide)).mpr (by norm_num)
  obtain ⟨once, repeated⟩ := approach_on_schedule apart
  have first := (once 2 (by norm_num)).2.1
  have second := (repeated 2 (by norm_num) 2).2
  have third := (repeated 2 (by norm_num) 3).2
  rw [least] at second third
  rw [min_eq_left (by norm_num)] at first
  exact ⟨apart, first, fun there => absurd (second.mp there) (by decide), third.mpr (le_refl 3)⟩

end Vec

end Gameplay
