import Gameplay.Proofs.Suspension

/-!
# Instances through a tick

An instance keeps its id and its object for as long as it is there, and a destroyed one stays destroyed.
Its waits change in two ways only: an invocation of its own parks a new one, and its turn in the step
phase lets time pass for them.

## Main results

`Moved.follows`: every instance after a step has a new id or follows one from before.
`Moved.each`: what these changes keep of the waits of an instance is kept by every step.
-/

namespace Gameplay

namespace World

variable {τ : Type}

/-- An instance is in the world and not destroyed. -/
def Alive (w : World τ) (id : Nat) : Prop := ∃ i ∈ w.instances, i.id = id ∧ i.destroyed = false

/-- Every instance of an id that is still in the world is destroyed. -/
def Dead (w : World τ) (id : Nat) : Prop := ∀ i ∈ w.instances, i.id = id → i.destroyed = true

/-- The object of an instance and its waits have a property, if the instance is there. -/
def Each (w : World τ) (id : Nat) (P : Nat → List (Wait τ) → Prop) : Prop :=
  ∀ i ∈ w.instances, i.id = id → P i.object i.waits

theorem not_alive {w : World τ} {id : Nat} : ¬ w.Alive id ↔ w.Dead id := by
  simp only [Alive, Dead, not_exists, not_and, Bool.not_eq_false]

theorem isDestroyed_iff {w : World τ} (unique : (w.instances.map (·.id)).Nodup) {i : Instance τ}
    (member : i ∈ w.instances) : w.isDestroyed i.id = i.destroyed := by
  rw [isDestroyed, instance?_of_mem unique member]
  rfl

end World

namespace Moment

variable {τ : Type} [Scalar τ] {m next : Moment τ} {id : Nat}

/-- What a step can do to an instance that stays in the world. -/
structure Follows (m next : Moment τ) (i j : Instance τ) : Prop where
  id : j.id = i.id
  object : j.object = i.object
  fresh : j.fresh = true → i.fresh = true
  destroyed : i.destroyed = true → j.destroyed = true
  waits : j.waits = i.waits ∨
    (∃ wait, wait.issued = m.world.clock.tick ∧ j.waits = i.waits ++ [wait]) ∨
    (m.phase = .step ∧ (∃ head, m.ahead = head :: next.ahead ∧ head.id = i.id) ∧
      j.waits = (Waits.advance i.waits m.world.clock.delta m.world.clock.tick).2)

theorem Follows.refl (m next : Moment τ) (i : Instance τ) : Follows m next i i :=
  ⟨rfl, rfl, fun fresh => fresh, fun destroyed => destroyed, .inl rfl⟩

/-- No step gives an id out again. -/
def Continues (m next : Moment τ) : Prop :=
  m.world.lastId ≤ next.world.lastId ∧
    ∀ j ∈ next.world.instances, m.world.lastId < j.id ∨ ∃ i ∈ m.world.instances, Follows m next i j

private theorem strode_continues {v : Invocation} {frames : List Frame} {stride : Stride τ}
    (strode : World.Strode v m.world frames next.world stride) : Continues m next := by
  obtain ⟨w₀, status, entries, change, same, _⟩ := strode.acted
  rw [Continues, same]
  refine ⟨Nat.le_of_eq change.lastId.symm, fun j member => .inr ?_⟩
  obtain ⟨i, present, acted⟩ := related_mem change.instances member
  exact ⟨i, present, acted.id, acted.object, (acted.fresh ▸ ·), acted.destroyed, .inl acted.waits⟩

private theorem mapped_continues {f : Instance τ → Instance τ}
    (lastId : next.world.lastId = m.world.lastId) (instances : next.world.instances = m.world.instances.map f)
    (follows : ∀ i ∈ m.world.instances, Follows m next i (f i)) : Continues m next := by
  refine ⟨Nat.le_of_eq lastId.symm, fun j member => .inr ?_⟩
  rw [instances] at member
  obtain ⟨i, present, rfl⟩ := List.mem_map.mp member
  exact ⟨i, present, follows i present⟩

private theorem renewed_continues (renewed : m.world.Renewed next.world) : Continues m next := by
  refine ⟨renewed.lastId, fun j member => ?_⟩
  rcases renewed.instances j member with new | old
  · exact .inl new
  · exact .inr ⟨j, old, .refl m next j⟩

private theorem same_continues (lastId : next.world.lastId = m.world.lastId)
    (instances : next.world.instances = m.world.instances) : Continues m next :=
  renewed_continues ⟨Nat.le_of_eq lastId.symm, fun _ member => .inr (instances ▸ member)⟩

private theorem park_continues {w w' : World τ} {phase : Phase} {v : Invocation} {steps : Nat}
    {frames left : List Frame} {duration : τ} {agenda : List (Turn τ)} {ahead : List (Instance τ)}
    (strode : World.Strode v w frames w' (.stop (.suspended duration left))) :
    Continues ⟨w, phase, some ⟨v, steps, frames⟩, agenda, ahead, none⟩
      ⟨w'.park v duration left, phase, none, agenda, ahead, none⟩ := by
  obtain ⟨w₀, status, entries, change, rfl, _⟩ := strode.acted
  refine ⟨Nat.le_of_eq change.lastId.symm, fun k member => .inr ?_⟩
  obtain ⟨j, there, rfl⟩ := List.mem_map.mp member
  obtain ⟨i, present, acted⟩ := related_mem change.instances there
  refine ⟨i, present, ?_⟩
  split
  · have issued : w₀.clock.tick = w.clock.tick := congrArg Clock.tick change.clock
    have appended := congrArg (· ++ [⟨v.slot, left, duration, 0, w₀.clock.tick, v.partner⟩]) acted.waits
    exact ⟨acted.id, acted.object, (acted.fresh ▸ ·), acted.destroyed, .inr (.inl ⟨_, issued, appended⟩)⟩
  · exact ⟨acted.id, acted.object, (acted.fresh ▸ ·), acted.destroyed, .inl acted.waits⟩

private theorem step_continues {w w' : World τ} {i : Instance τ} {is : List (Instance τ)}
    {agenda : List (Turn τ)} {due : List (Wait τ)} (unique : (w.instances.map (·.id)).Nodup)
    (taken : w.takeDue i.id = (w', due)) :
    Continues ⟨w, .step, none, [], i :: is, none⟩ ⟨w', .step, none, agenda, is, none⟩ := by
  rcases World.takeDue_cases taken with ⟨_, rfl, _⟩ | ⟨own, found, _, rfl⟩
  · exact same_continues rfl rfl
  · refine mapped_continues rfl rfl fun j member => ?_
    split
    next mine =>
      -- ids are distinct, so the waits that are aged are its own
      have only : j = own := Option.some.inj ((World.instance?_of_mem unique member).symm.trans (mine ▸ found))
      subst only
      exact ⟨rfl, rfl, fun fresh => fresh, fun destroyed => destroyed,
        .inr (.inr ⟨rfl, ⟨i, rfl, mine.symm⟩, rfl⟩)⟩
    next other => exact .refl _ _ j

/-- Every instance after a step has a new id or follows one from before. -/
theorem Moved.follows (moved : Moved m next) (coherent : m.Coherent) : Continues m next := by
  cases moved with
  | walk strode | halt strode | fail strode => exact strode_continues strode
  | park strode => exact park_continues strode
  | create =>
    -- an instance may lose its freshness
    refine mapped_continues rfl rfl fun i _ => ?_
    split
    · exact ⟨rfl, rfl, nofun, fun destroyed => destroyed, .inl rfl⟩
    · exact .refl _ _ i
  | step taken => exact step_continues coherent.world.ids taken
  | stepped =>
    refine mapped_continues rfl rfl fun i _ => ?_
    split
    · exact .refl _ _ i
    · exact ⟨rfl, rfl, fun fresh => fresh, fun destroyed => destroyed, .inl rfl⟩
  | handle _ _ taken => subst taken; exact same_continues rfl rfl
  | commit => exact renewed_continues (World.commit_renewed _)
  | transition _ | transitionFailed _ => exact renewed_continues (World.stepTransition_renewed _)
  | request _ | requestFailed _ => exact renewed_continues (World.followRequest_renewed _)
  | finish _ | pass _ | drop _ | start _ _ | resume _ _ | created | collided | handled _ | close =>
    exact same_continues rfl rfl

/-! ### what stays true of an instance -/

theorem Moved.lastId (moved : Moved m next) (coherent : m.Coherent) :
    m.world.lastId ≤ next.world.lastId :=
  (moved.follows coherent).1

/-- An instance that is there after a step, with an id that had been given out, was there before. -/
theorem Moved.before (moved : Moved m next) (coherent : m.Coherent) {j : Instance τ}
    (given : j.id ≤ m.world.lastId) (member : j ∈ next.world.instances) :
    ∃ i ∈ m.world.instances, Follows m next i j := by
  rcases (moved.follows coherent).2 j member with new | old
  · exact absurd given (Nat.not_le_of_lt new)
  · exact old

/-- Who is destroyed stays so, as no id is given out again. -/
theorem Moved.dead (moved : Moved m next) (coherent : m.Coherent) (given : id ≤ m.world.lastId)
    (dead : m.world.Dead id) : next.world.Dead id := by
  rintro j member rfl
  obtain ⟨i, present, follows⟩ := moved.before coherent given member
  exact follows.destroyed (dead i present follows.id.symm)

/-- A property of the object and the waits of an instance is kept by a step if a new wait and the passing of time
keep it. -/
theorem Moved.each {P : Nat → List (Wait τ) → Prop} (moved : Moved m next) (coherent : m.Coherent)
    (given : id ≤ m.world.lastId) (each : m.world.Each id P)
    (parked : ∀ object waits wait, wait.issued = m.world.clock.tick → P object waits →
      P object (waits ++ [wait]))
    (aged : ∀ head object waits, m.phase = .step → m.ahead = head :: next.ahead → head.id = id →
      P object waits → P object (Waits.advance waits m.world.clock.delta m.world.clock.tick).2) :
    next.world.Each id P := by
  rintro j member rfl
  obtain ⟨i, present, follows⟩ := moved.before coherent given member
  have holds : P i.object i.waits := each i present follows.id.symm
  rw [follows.object]
  -- a step keeps the waits, adds one of this tick, or lets them age
  rcases follows.waits with same | ⟨wait, issued, appended⟩ | ⟨phase, ⟨head, ahead, mine⟩, advanced⟩
  · rw [same]
    exact holds
  · rw [appended]
    exact parked _ _ _ issued holds
  · rw [advanced]
    exact aged head _ _ phase ahead (mine.trans follows.id.symm) holds

theorem Steps.lastId {m last : Moment τ} (steps : Steps m last) (coherent : m.Coherent) :
    m.world.lastId ≤ last.world.lastId :=
  steps.keeps (P := fun next => m.world.lastId ≤ next.world.lastId) coherent (Nat.le_refl _)
    fun moved coherent given => Nat.le_trans given (moved.lastId coherent)

/-- A destroyed instance stays destroyed to the end of the tick. -/
theorem Steps.dead {m last : Moment τ} (steps : Steps m last) (coherent : m.Coherent)
    (given : id ≤ m.world.lastId) (dead : m.world.Dead id) : last.world.Dead id := by
  have both : id ≤ last.world.lastId ∧ last.world.Dead id := by
    refine steps.keeps (P := fun m => id ≤ m.world.lastId ∧ m.world.Dead id) coherent ⟨given, dead⟩ ?_
    rintro m next moved coherent ⟨given, dead⟩
    exact ⟨Nat.le_trans given (moved.lastId coherent), moved.dead coherent given dead⟩
  exact both.2

end Moment

end Gameplay
