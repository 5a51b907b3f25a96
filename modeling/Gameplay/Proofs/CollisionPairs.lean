import Gameplay.Proofs.EditorCheck

/-!
# Pairs that collide

The pairs that collide are listed by positions in the list of bodies. In a world the bodies are those of the
instances that live, sorted by id, so the pairs are also pairs of ids.

## Main result

`collision_pairs_exact`: the list of pairs is the relation of overlap, each pair once and in ascending order,
and in a world it does not depend on the order in which the instances are kept.

## Proof strategy

A list that is strictly ascending is known from its elements (`live_eq_of_perm`), and what is ascending by
position in it is ascending by id (`collidingIds_ascending`). The comparison of coordinates is whatever the
numbers have; nothing is asked of it.
-/

namespace Gameplay

/-! ### bodies -/

namespace Body

variable {α : Type} [Scalar α]

/-- One of two bodies is solid, and on each axis the box of either begins before that of the other ends. -/
structure Collide (a b : Body α) : Prop where
  solid : a.collider.solid = true ∨ b.collider.solid = true
  across : a.block.box.least.x < b.block.box.most.x ∧ b.block.box.least.x < a.block.box.most.x
  along : a.block.box.least.y < b.block.box.most.y ∧ b.block.box.least.y < a.block.box.most.y

theorem collide_iff {a b : Body α} : a.block.collides b.block = true ↔ a.Collide b := by
  simp only [Block.collides, Block.eligible, Box.overlaps, Bool.and_eq_true, Bool.or_eq_true,
    decide_eq_true_eq]
  constructor
  · rintro ⟨solid, ⟨⟨left, right⟩, lower⟩, upper⟩
    exact ⟨solid, ⟨left, right⟩, ⟨lower, upper⟩⟩
  · rintro ⟨solid, ⟨left, right⟩, ⟨lower, upper⟩⟩
    exact ⟨solid, ⟨⟨left, right⟩, lower⟩, upper⟩

end Body

section

variable {α : Type} [Scalar α] {bodies : List (Body α)}

/-- A pair of positions is listed exactly if they are different and their bodies collide. -/
theorem mem_collidingPairs_iff {i j : Nat} : (i, j) ∈ collidingPairs bodies ↔
    ∃ a b, bodies[i]? = some a ∧ bodies[j]? = some b ∧ i ≠ j ∧ a.Collide b := by
  simp only [mem_collidingPairs, Body.collide_iff]

theorem collidingPairs_symm {i j : Nat} (pair : (i, j) ∈ collidingPairs bodies) :
    (j, i) ∈ collidingPairs bodies := by
  obtain ⟨a, b, foundA, foundB, apart, collide⟩ := mem_collidingPairs.mp pair
  rw [Block.collides_comm] at collide
  exact mem_collidingPairs.mpr ⟨b, a, foundB, foundA, apart.symm, collide⟩

theorem collidingPairs_lex (bodies : List (Body α)) :
    (collidingPairs bodies).Pairwise (Prod.Lex (· < ·) (· < ·)) := by
  apply (collidingPairs_ascending bodies).imp
  intro p q smaller
  exact Prod.lex_def.mpr smaller

end

namespace World

variable {τ : Type} {w w' : World τ}

/-! ### bodies of a world -/

/-- The bodies of the instances that live, ascending by id. -/
def bodies (w : World τ) : List (Body Float32) := w.live.map bodyOf

def bodyId (w : World τ) (position : Nat) : Nat := ((w.bodies[position]?).map (·.id)).getD 0

/-- The pairs that collide, by the ids of their two sides. -/
def collidingIds (w : World τ) : List (Nat × Nat) :=
  (collidingPairs w.bodies).map fun pair => (w.bodyId pair.1, w.bodyId pair.2)

theorem bodies_ascending (unique : (w.instances.map (·.id)).Nodup) :
    w.bodies.Pairwise fun a b => a.id < b.id :=
  List.pairwise_map.mpr (live_ascending unique)

theorem bodyId_of_getElem? {position : Nat} {a : Body Float32} (found : w.bodies[position]? = some a) :
    w.bodyId position = a.id := by
  simp [bodyId, found]

/-- Positions of bodies are ordered as their ids. -/
theorem bodyId_lt (unique : (w.instances.map (·.id)).Nodup) {m n : Nat} {a b : Body Float32}
    (first : w.bodies[m]? = some a) (second : w.bodies[n]? = some b) (smaller : m < n) :
    w.bodyId m < w.bodyId n := by
  rw [bodyId_of_getElem? first, bodyId_of_getElem? second]
  obtain ⟨boundM, rfl⟩ := List.getElem?_eq_some_iff.mp first
  obtain ⟨boundN, rfl⟩ := List.getElem?_eq_some_iff.mp second
  exact List.pairwise_iff_getElem.mp (bodies_ascending unique) m n boundM boundN smaller

theorem collidingIds_ascending (unique : (w.instances.map (·.id)).Nodup) :
    w.collidingIds.Pairwise (Prod.Lex (· < ·) (· < ·)) := by
  apply List.pairwise_map.mpr
  apply (collidingPairs_ascending w.bodies).imp_of_mem
  rintro ⟨m, n⟩ ⟨m', n'⟩ pair pair' smaller
  obtain ⟨a, b, foundA, foundB, _, _⟩ := mem_collidingPairs.mp pair
  obtain ⟨a', b', foundA', foundB', _, _⟩ := mem_collidingPairs.mp pair'
  rcases smaller with first | ⟨same, second⟩
  · exact .left _ _ (bodyId_lt unique foundA foundA' first)
  · dsimp only at same
    subst same
    exact .right _ (bodyId_lt unique foundB foundB' second)

/-- The bodies are those of the instances that live. -/
theorem mem_bodies {a : Body Float32} :
    a ∈ w.bodies ↔ ∃ i ∈ w.instances, i.destroyed = false ∧ bodyOf i = a := by
  simp only [bodies, List.mem_map, mem_live, and_assoc]

/-- A pair of ids is listed exactly if they are those of two instances that live and collide. -/
theorem mem_collidingIds (unique : (w.instances.map (·.id)).Nodup) {self other : Nat} :
    (self, other) ∈ w.collidingIds ↔ ∃ i ∈ w.instances, ∃ j ∈ w.instances,
      i.destroyed = false ∧ j.destroyed = false ∧ i.id = self ∧ j.id = other ∧ self ≠ other ∧
        (bodyOf i).Collide (bodyOf j) := by
  simp only [collidingIds, List.mem_map, Prod.exists, Prod.mk.injEq]
  constructor
  · rintro ⟨m, n, pair, rfl, rfl⟩
    obtain ⟨a, b, foundA, foundB, apart, collide⟩ := mem_collidingPairs_iff.mp pair
    have distinct : w.bodyId m ≠ w.bodyId n := by
      rcases Nat.lt_or_gt_of_ne apart with smaller | larger
      · exact Nat.ne_of_lt (bodyId_lt unique foundA foundB smaller)
      · exact Nat.ne_of_gt (bodyId_lt unique foundB foundA larger)
    obtain ⟨i, memberI, liveI, rfl⟩ := mem_bodies.mp (List.mem_of_getElem? foundA)
    obtain ⟨j, memberJ, liveJ, rfl⟩ := mem_bodies.mp (List.mem_of_getElem? foundB)
    exact ⟨i, memberI, j, memberJ, liveI, liveJ, (bodyId_of_getElem? foundA).symm,
      (bodyId_of_getElem? foundB).symm, distinct, collide⟩
  · rintro ⟨i, memberI, j, memberJ, liveI, liveJ, rfl, rfl, distinct, collide⟩
    obtain ⟨m, foundA⟩ := List.mem_iff_getElem?.mp (mem_bodies.mpr ⟨i, memberI, liveI, rfl⟩)
    obtain ⟨n, foundB⟩ := List.mem_iff_getElem?.mp (mem_bodies.mpr ⟨j, memberJ, liveJ, rfl⟩)
    -- one position has one body, and these have two ids
    have apart : m ≠ n := by
      rintro rfl
      rw [foundA] at foundB
      exact distinct (congrArg Body.id (Option.some.inj foundB))
    refine ⟨m, n, mem_collidingPairs_iff.mpr ⟨_, _, foundA, foundB, apart, collide⟩, ?_, ?_⟩
    · exact bodyId_of_getElem? foundA
    · exact bodyId_of_getElem? foundB

/-! ### the order in which instances are kept -/

/-- The instances that live are listed in the same way, in whatever order they are kept. -/
theorem live_eq_of_perm (unique : (w.instances.map (·.id)).Nodup) (shuffled : w'.instances.Perm w.instances) :
    w'.live = w.live := by
  have unique' : (w'.instances.map (·.id)).Nodup := (shuffled.map _).nodup_iff.mpr unique
  have same : w'.live.Perm w.live := by
    apply (sortOn_perm _ _).trans
    exact (shuffled.filter _).trans (sortOn_perm _ _).symm
  apply same.eq_of_pairwise _ (live_ascending unique') (live_ascending unique)
  intro i j _ _ before after
  exact absurd after (Nat.lt_asymm before)

end World

/-- The list of pairs that collide is the relation of overlap, in order. For bodies with coordinates of any
kind: it has the pairs of two positions of which one side is solid and the boxes overlap, strictly ascending,
and with each pair the opposite one. For a world whose instances have ids of their own: its pairs ascend
strictly by the ids of the two sides, they are those of two instances that live, and they stay the same in
whatever order the instances are kept. -/
theorem collision_pairs_exact {α τ : Type} [Scalar α] :
    (∀ bodies : List (Body α),
      (∀ i j, (i, j) ∈ collidingPairs bodies ↔
        ∃ a b, bodies[i]? = some a ∧ bodies[j]? = some b ∧ i ≠ j ∧ a.Collide b) ∧
      (collidingPairs bodies).Pairwise (Prod.Lex (· < ·) (· < ·)) ∧
      ∀ i j, (i, j) ∈ collidingPairs bodies ↔ (j, i) ∈ collidingPairs bodies) ∧
    ∀ w : World τ, (w.instances.map (·.id)).Nodup →
      w.collidingIds.Pairwise (Prod.Lex (· < ·) (· < ·)) ∧
      (∀ self other, (self, other) ∈ w.collidingIds ↔ ∃ i ∈ w.instances, ∃ j ∈ w.instances,
        i.destroyed = false ∧ j.destroyed = false ∧ i.id = self ∧ j.id = other ∧ self ≠ other ∧
          (World.bodyOf i).Collide (World.bodyOf j)) ∧
      ∀ w' : World τ, w'.instances.Perm w.instances → w'.live = w.live ∧ w'.collidingIds = w.collidingIds := by
  constructor
  · intro bodies
    exact ⟨fun i j => mem_collidingPairs_iff, collidingPairs_lex bodies,
      fun i j => ⟨collidingPairs_symm, collidingPairs_symm⟩⟩
  · intro w unique
    refine ⟨World.collidingIds_ascending unique, fun self other => World.mem_collidingIds unique, ?_⟩
    intro w' shuffled
    have live : w'.live = w.live := World.live_eq_of_perm unique shuffled
    refine ⟨live, ?_⟩
    -- pairs are those of the instances that live, and these are sorted by their ids
    unfold World.collidingIds World.bodyId World.bodies
    rw [live]

/-- A coin on the northern wall of the court: the two collide, in both orders, also if the instances are kept
the other way round. -/
theorem collision_pairs_exact_courtyard :
    let coin : Placement := ⟨"new", "coin", 39, 7, none⟩
    let w := ((Game.new .default : Game Float).start (Game.courtyard.place "court" coin) "court").1.world
    let w' := { w with instances := w.instances.reverse }
    (w.instances.map (·.id)).Nodup ∧ w'.instances.Perm w.instances ∧ w.collidingIds = [(1, 3), (3, 1)] ∧
      w'.collidingIds = w.collidingIds := by
  intro coin w w'
  have unique : (w.instances.map (·.id)).Nodup := by decide +kernel
  have shuffled : w'.instances.Perm w.instances := List.reverse_perm _
  obtain ⟨_, _, stored⟩ := (@collision_pairs_exact Float32 Float _).2 w unique
  exact ⟨unique, shuffled, by decide +kernel, (stored w' shuffled).2⟩

end Gameplay
