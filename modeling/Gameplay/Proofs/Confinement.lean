import Gameplay.Proofs.Overlaps

/-!
# Keeping boxes inside rooms

On each axis a position is confined to where a box of the given size has room on its far side. This takes the
size as it is given, while a box with a negative size lies on the near side of its position.

## Main result

`confine_keeps_inside`: a confined box lies in the room, except that on an axis of negative size it is there
only if it was before.

## Proof strategy

The axes do not depend on each other, so the facts are proved on one of them (`confineOn`, `InsideOn`).
-/

namespace Gameplay

namespace Box

def width (b : Box ℚ) : ℚ := b.most.x - b.least.x

def height (b : Box ℚ) : ℚ := b.most.y - b.least.y

/-- From left to right the box lies in a room. -/
def InsideAcross (b : Box ℚ) (room : Vec ℚ) : Prop := 0 ≤ b.least.x ∧ b.most.x ≤ room.x

/-- From top to bottom the box lies in a room. -/
def InsideAlong (b : Box ℚ) (room : Vec ℚ) : Prop := 0 ≤ b.least.y ∧ b.most.y ≤ room.y

def Inside (b : Box ℚ) (room : Vec ℚ) : Prop := b.InsideAcross room ∧ b.InsideAlong room

end Box

/-! ### one axis -/

/-- A position confined on one axis. -/
def confineOn (offset size room position : ℚ) : ℚ :=
  min (max position (-offset)) (max (room - size - offset) (-offset))

/-- The corners of a box lie in the room on one axis, whichever is the first. -/
def InsideOn (offset size room position : ℚ) : Prop :=
  (0 ≤ position + offset ∧ 0 ≤ position + offset + size) ∧
    position + offset ≤ room ∧ position + offset + size ≤ room

section

variable {offset size room position : ℚ}

theorem least_le_confineOn : -offset ≤ confineOn offset size room position :=
  le_min (le_max_right _ _) (le_max_right _ _)

theorem confineOn_confineOn : confineOn offset size room (confineOn offset size room position) =
    confineOn offset size room position := by
  rw [confineOn, max_eq_left least_le_confineOn]
  exact min_eq_left (min_le_right _ _)

theorem confineOn_of_inside (inside : InsideOn offset size room position) :
    confineOn offset size room position = position := by
  obtain ⟨⟨first, _⟩, _, last⟩ := inside
  have least : -offset ≤ position := by linarith
  have most : position ≤ room - size - offset := by linarith
  rw [confineOn, max_eq_left least, min_eq_left (le_max_of_le_left most)]

/-- A box that is no larger than the room is confined to it, unless its size is negative. -/
theorem confineOn_inside (forward : 0 ≤ size) (fits : size ≤ room) :
    InsideOn offset size room (confineOn offset size room position) := by
  have least : -offset ≤ confineOn offset size room position := least_le_confineOn
  have most : confineOn offset size room position ≤ room - size - offset :=
    (min_le_right _ _).trans (max_le (le_refl _) (by linarith))
  refine ⟨⟨?_, ?_⟩, ?_, ?_⟩ <;> linarith

/-- A box of negative size that is in the room when it is confined has not been moved. -/
theorem inside_of_confineOn (backward : size < 0)
    (inside : InsideOn offset size room (confineOn offset size room position)) :
    InsideOn offset size room position := by
  have still : confineOn offset size room position = position := by
    obtain ⟨⟨_, first⟩, last, _⟩ := inside
    unfold confineOn at first last ⊢
    rcases le_total position (-offset) with before | after
    · -- moved to the least position, the box would begin before the room
      rw [max_eq_right before, min_eq_left (le_max_right _ _)] at first
      linarith
    · rw [max_eq_left after] at last ⊢
      rcases le_total position (max (room - size - offset) (-offset)) with within | beyond
      · exact min_eq_left within
      · -- moved to the greatest position, it would end after the room
        rw [min_eq_right beyond] at last
        have most := le_max_left (room - size - offset) (-offset)
        linarith
  exact still ▸ inside

/-- On one axis confining works exactly for sizes that are not negative and positions that were right already. -/
theorem confineOn_inside_iff (fits : size ≤ room) :
    InsideOn offset size room (confineOn offset size room position) ↔
      0 ≤ size ∨ InsideOn offset size room position := by
  constructor
  · intro inside
    rcases le_or_gt 0 size with forward | backward
    · exact .inl forward
    · exact .inr (inside_of_confineOn backward inside)
  · rintro (forward | inside)
    · exact confineOn_inside forward fits
    · exact (confineOn_of_inside inside).symm ▸ inside

end

/-! ### boxes -/

namespace Collider

variable (c : Collider ℚ) (position room : Vec ℚ)

theorem confine_eq : c.confine position room =
    ⟨confineOn c.offset.x c.size.x room.x position.x, confineOn c.offset.y c.size.y room.y position.y⟩ := by
  simp only [confineOn, ← lesser_eq_min, ← greater_eq_max]
  rfl

theorem insideAcross_iff : (c.box position).InsideAcross room ↔
    InsideOn c.offset.x c.size.x room.x position.x := by
  rw [Box.InsideAcross, box_eq, le_min_iff, max_le_iff, InsideOn]

theorem insideAlong_iff : (c.box position).InsideAlong room ↔
    InsideOn c.offset.y c.size.y room.y position.y := by
  rw [Box.InsideAlong, box_eq, le_min_iff, max_le_iff, InsideOn]

theorem box_width : (c.box position).width = |c.size.x| := by
  rw [Box.width, box_eq, max_sub_min_eq_abs, add_sub_cancel_left]

theorem box_height : (c.box position).height = |c.size.y| := by
  rw [Box.height, box_eq, max_sub_min_eq_abs, add_sub_cancel_left]

/-- A box that is no wider and no taller than a room, at a position that is confined to the room. On an axis
of a size that is not negative the box lies in the room. On an axis of negative size it does iff it did
before. If the box is in the room already then its position stays, and a position that is confined once more
stays as well. -/
theorem confine_keeps_inside (narrow : (c.box position).width ≤ room.x)
    (low : (c.box position).height ≤ room.y) :
    let confined := c.confine position room
    ((c.box confined).InsideAcross room ↔ 0 ≤ c.size.x ∨ (c.box position).InsideAcross room) ∧
    ((c.box confined).InsideAlong room ↔ 0 ≤ c.size.y ∨ (c.box position).InsideAlong room) ∧
    ((c.box position).Inside room → confined = position) ∧
    c.confine confined room = confined := by
  intro confined
  have across : c.size.x ≤ room.x := (le_abs_self _).trans (c.box_width position ▸ narrow)
  have along : c.size.y ≤ room.y := (le_abs_self _).trans (c.box_height position ▸ low)
  have same : confined = _ := c.confine_eq position room
  -- each axis is confined by itself
  refine ⟨?_, ?_, ?_, ?_⟩
  · rw [insideAcross_iff, insideAcross_iff, same]
    exact confineOn_inside_iff across
  · rw [insideAlong_iff, insideAlong_iff, same]
    exact confineOn_inside_iff along
  · rintro ⟨insideX, insideY⟩
    rw [insideAcross_iff] at insideX
    rw [insideAlong_iff] at insideY
    rw [same, confineOn_of_inside insideX, confineOn_of_inside insideY]
  · rw [same, confine_eq, confineOn_confineOn, confineOn_confineOn]

/-- A box of 10 by 4 that hangs over the right edge of a hall of 100 by 60, above its position by the offset,
is brought back into it. -/
theorem confine_keeps_inside_hall :
    let c : Collider ℚ := ⟨⟨10, 4⟩, ⟨2, -4⟩, false⟩
    let confined := c.confine ⟨95, 1⟩ ⟨100, 60⟩
    (c.box ⟨95, 1⟩).width ≤ 100 ∧ (c.box ⟨95, 1⟩).height ≤ 60 ∧ ¬ (c.box ⟨95, 1⟩).Inside ⟨100, 60⟩ ∧
      confined = ⟨88, 4⟩ ∧ (c.box confined).Inside ⟨100, 60⟩ ∧ c.confine confined ⟨100, 60⟩ = confined := by
  intro c confined
  have narrow : (c.box ⟨95, 1⟩).width ≤ 100 := by
    rw [box_width]
    decide +kernel
  have low : (c.box ⟨95, 1⟩).height ≤ 60 := by
    rw [box_height]
    decide +kernel
  obtain ⟨across, along, _, again⟩ := confine_keeps_inside c ⟨95, 1⟩ ⟨100, 60⟩ narrow low
  refine ⟨narrow, low, ?_, by decide +kernel, ⟨across.mpr (.inl ?_), along.mpr (.inl ?_)⟩, again⟩
  · rintro ⟨inside, _⟩
    rw [insideAcross_iff] at inside
    exact absurd inside.2.2 (by decide +kernel)
  · decide +kernel
  · decide +kernel

/-- It is not so that every confined box that fits lies in the room: a box with the size of the room on the
other side of its position does not. -/
theorem confine_inside_refuted :
    ¬ ∀ (c : Collider ℚ) (position room : Vec ℚ), (c.box position).width ≤ room.x →
      (c.box position).height ≤ room.y → (c.box (c.confine position room)).Inside room := by
  intro keeps
  let c : Collider ℚ := ⟨⟨-100, -100⟩, ⟨0, 0⟩, false⟩
  have narrow : (c.box ⟨0, 0⟩).width ≤ 100 := by
    rw [box_width]
    decide +kernel
  have low : (c.box ⟨0, 0⟩).height ≤ 100 := by
    rw [box_height]
    decide +kernel
  have inside := (keeps c ⟨0, 0⟩ ⟨100, 100⟩ narrow low).1
  exact absurd inside.1 (by decide +kernel)

end Collider

end Gameplay
