import Gameplay.Proofs.Ordering

/-!
# Encounters

An instance meets another if neither is destroyed, one of them is solid and their boxes overlap. It has a
collision event for each slot whose trigger names the other's object.

## Main results

`mem_collisions`: the invocations of the collision phase are those of all encounters.
`collisions_ascending`: they are listed in strictly ascending order, so each of them once.
-/

namespace Gameplay

/-! ### pairs of bodies -/

theorem mem_collidingPairs {α : Type} [Scalar α] {bodies : List (Body α)} {i j : Nat} :
    (i, j) ∈ collidingPairs bodies ↔
      ∃ a b, bodies[i]? = some a ∧ bodies[j]? = some b ∧ i ≠ j ∧ a.block.collides b.block = true := by
  simp only [collidingPairs, List.mem_flatMap, List.mem_map, List.mem_filter, Prod.exists,
    List.mem_zipIdx_iff_getElem?, List.getElem?_map, Option.map_eq_some_iff, Bool.and_eq_true, bne_iff_ne,
    Prod.mk.injEq]
  constructor
  · rintro ⟨_, _, ⟨a, foundA, rfl⟩, _, _, ⟨⟨b, foundB, rfl⟩, apart, collide⟩, rfl, rfl⟩
    exact ⟨a, b, foundA, foundB, apart, collide⟩
  · rintro ⟨a, b, foundA, foundB, apart, collide⟩
    exact ⟨_, i, ⟨a, foundA, rfl⟩, _, j, ⟨⟨b, foundB, rfl⟩, apart, collide⟩, rfl, rfl⟩

theorem collidingPairs_ascending {α : Type} [Scalar α] (bodies : List (Body α)) :
    (collidingPairs bodies).Pairwise fun p q => p.1 < q.1 ∨ p.1 = q.1 ∧ p.2 < q.2 := by
  have numbered : ((bodies.map Body.block).zipIdx).Pairwise fun p q => p.2 < q.2 := by
    refine List.pairwise_map.mp ?_
    rw [List.zipIdx_map_snd]
    exact List.pairwise_lt_range' 1
  refine List.pairwise_flatMap.mpr ⟨fun first _ => ?_, numbered.imp fun {p q} smaller => ?_⟩
  · exact List.pairwise_map.mpr ((numbered.filter _).imp fun smaller => .inr ⟨rfl, smaller⟩)
  · intro x fromP y fromQ
    obtain ⟨_, _, rfl⟩ := List.mem_map.mp fromP
    obtain ⟨_, _, rfl⟩ := List.mem_map.mp fromQ
    exact .inl smaller

namespace World

variable {τ : Type} {w : World τ}

/-- An instance meets another and has a collision event for it. -/
structure Meets (w : World τ) (i j : Instance τ) (slot : Nat) : Prop where
  self : i ∈ w.instances ∧ i.destroyed = false
  other : j ∈ w.instances ∧ j.destroyed = false
  distinct : i.id ≠ j.id
  solid : (bodyOf i).block.eligible (bodyOf j).block = true
  overlap : (bodyOf i).block.box.overlaps (bodyOf j).block.box = true
  target : ∃ o, w.program.object? j.object = some o ∧
    w.program.trigger? i.object slot = some (.collision o.id)

/-- Positions among the instances that live are those of their ids. -/
private theorem live_positions (unique : (w.instances.map (·.id)).Nodup) {m n : Nat} {i j : Instance τ}
    (first : w.live[m]? = some i) (second : w.live[n]? = some j) :
    (m < n → i.id < j.id) ∧ (m = n → i = j) := by
  obtain ⟨boundM, rfl⟩ := List.getElem?_eq_some_iff.mp first
  obtain ⟨boundN, rfl⟩ := List.getElem?_eq_some_iff.mp second
  refine ⟨fun smaller => ?_, fun same => by subst same; rfl⟩
  exact List.pairwise_iff_getElem.mp (live_ascending unique) m n boundM boundN smaller

/-- Two positions hold two instances. -/
theorem live_apart (unique : (w.instances.map (·.id)).Nodup) {m n : Nat} {i j : Instance τ}
    (first : w.live[m]? = some i) (second : w.live[n]? = some j) (apart : m ≠ n) : i.id ≠ j.id := by
  rcases Nat.lt_or_gt_of_ne apart with smaller | larger
  · exact Nat.ne_of_lt ((live_positions unique first second).1 smaller)
  · exact (Nat.ne_of_lt ((live_positions unique second first).1 larger)).symm

/-- An instance that meets another has the collision events for the object of the other. -/
private theorem mem_collisionInvocations (coherent : w.Coherent) {i j : Instance τ} {v : Invocation}
    (member : j ∈ w.instances) :
    v ∈ w.collisionInvocations i j ↔ ∃ slot o, w.program.object? j.object = some o ∧
      w.program.trigger? i.object slot = some (.collision o.id) ∧
      v = ⟨i.id, i.object, slot, some j.id⟩ := by
  obtain ⟨o, found⟩ := Option.isSome_iff_exists.mp (coherent.instances j member).object
  simp only [collisionInvocations, found, Option.map_some, Option.getD_some, mem_invocations, beq_iff_eq]
  constructor
  · rintro ⟨slot, _, rfl, trigger, rfl⟩
    exact ⟨slot, o, rfl, trigger, rfl⟩
  · rintro ⟨slot, _, same, trigger, rfl⟩
    cases same
    exact ⟨slot, _, rfl, trigger, rfl⟩

private theorem mem_collisions_pair {v : Invocation} :
    v ∈ w.collisions ↔ ∃ m n i j, (m, n) ∈ collidingPairs (w.live.map bodyOf) ∧ w.live[m]? = some i ∧
      w.live[n]? = some j ∧ v ∈ w.collisionInvocations i j := by
  simp only [collisions, List.mem_flatMap, Prod.exists]
  constructor
  · rintro ⟨m, n, pair, listed⟩
    split at listed
    next i j foundI foundJ => exact ⟨m, n, i, j, pair, foundI, foundJ, listed⟩
    · cases listed
  · rintro ⟨m, n, i, j, pair, foundI, foundJ, listed⟩
    refine ⟨m, n, pair, ?_⟩
    simp only [foundI, foundJ]
    exact listed

theorem mem_collisions (coherent : w.Coherent) {v : Invocation} :
    v ∈ w.collisions ↔ ∃ i j slot, w.Meets i j slot ∧ v = ⟨i.id, i.object, slot, some j.id⟩ := by
  rw [mem_collisions_pair]
  constructor
  -- a pair of positions stands for two instances that live
  · rintro ⟨m, n, i, j, pair, foundI, foundJ, listed⟩
    obtain ⟨_, _, foundA, foundB, apart, collide⟩ := mem_collidingPairs.mp pair
    simp only [List.getElem?_map, foundI, foundJ, Option.map_some, Option.some.injEq] at foundA foundB
    subst foundA foundB
    obtain ⟨solid, overlap⟩ := Bool.and_eq_true_iff.mp collide
    have self := mem_live.mp (List.mem_of_getElem? foundI)
    have other := mem_live.mp (List.mem_of_getElem? foundJ)
    obtain ⟨slot, o, object, trigger, rfl⟩ := (mem_collisionInvocations coherent other.1).mp listed
    have distinct : i.id ≠ j.id := live_apart coherent.ids foundI foundJ apart
    exact ⟨i, j, slot, ⟨self, other, distinct, solid, overlap, o, object, trigger⟩, rfl⟩
  -- two instances that live stand at different positions, which are a pair
  · rintro ⟨i, j, slot, meets, rfl⟩
    obtain ⟨m, foundI⟩ := List.mem_iff_getElem?.mp (mem_live.mpr meets.self)
    obtain ⟨n, foundJ⟩ := List.mem_iff_getElem?.mp (mem_live.mpr meets.other)
    have apart : m ≠ n := fun same =>
      meets.distinct (congrArg Instance.id ((live_positions coherent.ids foundI foundJ).2 same))
    have collide : (bodyOf i).block.collides (bodyOf j).block = true :=
      Bool.and_eq_true_iff.mpr ⟨meets.solid, meets.overlap⟩
    refine ⟨m, n, i, j, mem_collidingPairs.mpr ?_, foundI, foundJ, ?_⟩
    · refine ⟨bodyOf i, bodyOf j, ?_, ?_, apart, collide⟩
      · rw [List.getElem?_map, foundI, Option.map_some]
      · rw [List.getElem?_map, foundJ, Option.map_some]
    · obtain ⟨o, object, trigger⟩ := meets.target
      exact (mem_collisionInvocations coherent meets.other.1).mpr ⟨slot, o, object, trigger, rfl⟩

theorem collisions_ascending (coherent : w.Coherent) : w.collisions.Pairwise (·.place < ·.place) := by
  refine List.pairwise_flatMap.mpr ⟨fun pair _ => ?_, ?_⟩
  · -- within a pair only the slots differ
    obtain ⟨m, n⟩ := pair
    dsimp only
    split
    · exact invocations_ascending w _ _ _
    · exact .nil
  · -- positions ascend as ids do, first those of the instance and then those of the other
    refine (collidingPairs_ascending _).imp fun {p q} smaller => ?_
    intro u fromP v fromQ
    obtain ⟨m, n⟩ := p
    obtain ⟨m', n'⟩ := q
    dsimp only at fromP fromQ
    split at fromP
    next i j foundI foundJ =>
      split at fromQ
      next i' j' foundI' foundJ' =>
        obtain ⟨_, _, rfl, _⟩ := mem_invocations.mp fromP
        obtain ⟨_, _, rfl, _⟩ := mem_invocations.mp fromQ
        simp only [Invocation.place, Option.toList_some, List.singleton_append, List.cons_lt_cons_iff]
        rcases smaller with first | ⟨same, second⟩
        · exact .inl ((live_positions coherent.ids foundI foundI').1 first)
        · have own : i = i' := (live_positions coherent.ids foundI foundI').2 same
          refine .inr ⟨congrArg Instance.id own, .inl ?_⟩
          exact (live_positions coherent.ids foundJ foundJ').1 second
      · cases fromQ
    · cases fromP

end World

end Gameplay
