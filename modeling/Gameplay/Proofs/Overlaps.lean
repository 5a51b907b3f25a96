import Gameplay.Proofs.EditorCheck
import Gameplay.Proofs.ExactTime

/-!
# Overlaps

Boxes overlap by four comparisons of their corners. What these mean is told here by the common part of the
boxes, with coordinates read as exact rationals.

## Main result

`overlaps_iff_common_area`: boxes with an area overlap iff their common part has one. A box without an area
still overlaps what it lies strictly inside of.
-/

namespace Gameplay

theorem greater_eq_max (a b : ℚ) : Scalar.greater a b = max a b := by
  have number : Scalar.isNumber a = true := decide_eq_true (le_refl a)
  rw [Scalar.greater, if_pos number]
  split
  next less => exact (max_eq_right (le_of_lt less)).symm
  next other => exact (max_eq_left (not_lt.mp other)).symm

theorem lesser_eq_min (a b : ℚ) : Scalar.lesser a b = min a b := by
  have number : Scalar.isNumber a = true := decide_eq_true (le_refl a)
  rw [Scalar.lesser, if_pos number]
  split
  next less => exact (min_eq_right (le_of_lt less)).symm
  next other => exact (min_eq_left (not_lt.mp other)).symm

namespace Box

/-- The common part of two boxes. Its corners are crossed if the boxes lie apart. -/
def common (a b : Box ℚ) : Box ℚ := ⟨a.least.greater b.least, a.most.lesser b.most⟩

/-- The width and the height are positive. -/
def HasArea (b : Box ℚ) : Prop := b.least.x < b.most.x ∧ b.least.y < b.most.y

end Box

/-- Spans of an axis have a common part of positive length, or one of them is a point strictly inside the
other. -/
def SpansMeet (first last first' last' : ℚ) : Prop :=
  max first first' < min last last' ∨ first = last ∧ first' < first ∧ first < last' ∨
    first' = last' ∧ first < first' ∧ first' < last

/-- Two spans meet exactly if either begins before the other ends. -/
theorem spansMeet_iff {first last first' last' : ℚ} (ordered : first ≤ last) (ordered' : first' ≤ last') :
    SpansMeet first last first' last' ↔ first < last' ∧ first' < last := by
  simp only [SpansMeet, max_lt_iff, lt_min_iff]
  constructor
  · rintro (⟨⟨_, less'⟩, less, _⟩ | ⟨rfl, less', less⟩ | ⟨rfl, less, less'⟩)
    · exact ⟨less, less'⟩
    · exact ⟨less, less'⟩
    · exact ⟨less, less'⟩
  · rintro ⟨less, less'⟩
    -- a span is a point or has a length
    rcases eq_or_lt_of_le ordered with rfl | long
    · exact .inr (.inl ⟨rfl, less', less⟩)
    · rcases eq_or_lt_of_le ordered' with rfl | long'
      · exact .inr (.inr ⟨rfl, less, less'⟩)
      · exact .inl ⟨⟨long, less'⟩, less, long'⟩

namespace Box

/-- Boxes overlap if they do on both axes. -/
theorem overlaps_iff (a b : Box ℚ) : a.overlaps b = true ↔
    (a.least.x < b.most.x ∧ b.least.x < a.most.x) ∧ a.least.y < b.most.y ∧ b.least.y < a.most.y := by
  simp [overlaps, and_assoc]

/-- The common part has an area iff the boxes overlap and both have one. -/
theorem common_hasArea (a b : Box ℚ) :
    (a.common b).HasArea ↔ a.overlaps b = true ∧ a.HasArea ∧ b.HasArea := by
  rw [overlaps_iff]
  simp only [HasArea, common, Vec.greater, Vec.lesser, greater_eq_max, lesser_eq_min, max_lt_iff, lt_min_iff]
  tauto

end Box

/-- The corners of a collider's box, in order also if its size is negative. -/
theorem Collider.box_eq (c : Collider ℚ) (position : Vec ℚ) : c.box position =
    let x := position.x + c.offset.x
    let y := position.y + c.offset.y
    ⟨⟨min x (x + c.size.x), min y (y + c.size.y)⟩, ⟨max x (x + c.size.x), max y (y + c.size.y)⟩⟩ := by
  simp only [← lesser_eq_min, ← greater_eq_max]
  rfl

namespace Body

/-- The corners of a body's box are ordered, also if its size is negative. -/
theorem box_ordered (b : Body ℚ) :
    b.block.box.least.x ≤ b.block.box.most.x ∧ b.block.box.least.y ≤ b.block.box.most.y := by
  rw [block, Collider.box_eq]
  exact ⟨min_le_max, min_le_max⟩

/-- The box of a body has an area unless its size is zero on an axis. -/
theorem box_hasArea (b : Body ℚ) :
    b.block.box.HasArea ↔ b.collider.size.x ≠ 0 ∧ b.collider.size.y ≠ 0 := by
  rw [block, Collider.box_eq]
  simp [Box.HasArea]

/-- Two bodies overlap iff their spans meet on both axes. This does not depend on their order, and bodies
with an edge in common do not overlap. Their common part has an area iff they overlap and neither has a size
of zero on an axis. -/
theorem overlaps_iff_common_area (a b : Body ℚ) :
    let A := a.block.box
    let B := b.block.box
    (A.overlaps B = true ↔ SpansMeet A.least.x A.most.x B.least.x B.most.x ∧
      SpansMeet A.least.y A.most.y B.least.y B.most.y) ∧
    B.overlaps A = A.overlaps B ∧
    ¬ (A.overlaps B = true ∧ (A.most.x = B.least.x ∨ A.most.y = B.least.y)) ∧
    ((A.common B).HasArea ↔ A.overlaps B = true ∧ (a.collider.size.x ≠ 0 ∧ a.collider.size.y ≠ 0) ∧
      b.collider.size.x ≠ 0 ∧ b.collider.size.y ≠ 0) := by
  intro A B
  have orderedA := a.box_ordered
  have orderedB := b.box_ordered
  refine ⟨?_, ?_, ?_, ?_⟩
  · rw [Box.overlaps_iff, spansMeet_iff orderedA.1 orderedB.1, spansMeet_iff orderedA.2 orderedB.2]
  · exact Box.overlaps_comm B A
  · -- boxes that touch at an edge do not overlap
    rintro ⟨overlap, edge⟩
    obtain ⟨⟨_, acrossX⟩, _, acrossY⟩ := (Box.overlaps_iff A B).mp overlap
    rcases edge with edge | edge
    · exact absurd edge (ne_of_gt acrossX)
    · exact absurd edge (ne_of_gt acrossY)
  · rw [Box.common_hasArea, a.box_hasArea, b.box_hasArea]

/-- It is not so that bodies overlap iff their common part has an area: a point inside a hall overlaps it. -/
theorem overlaps_iff_area_refuted :
    ¬ ∀ a b : Body ℚ,
      a.block.box.overlaps b.block.box = true ↔ (a.block.box.common b.block.box).HasArea := by
  intro exact
  have overlap : (⟨1, ⟨0, 0⟩, ⟨⟨10, 10⟩, ⟨0, 0⟩, true⟩⟩ : Body ℚ).block.box.overlaps
      (⟨2, ⟨5, 5⟩, ⟨⟨0, 0⟩, ⟨0, 0⟩, false⟩⟩ : Body ℚ).block.box = true := by decide +kernel
  have area := (Box.common_hasArea _ _).mp ((exact _ _).mp overlap)
  exact ((box_hasArea _).mp area.2.2).1 rfl

end Body

end Gameplay
