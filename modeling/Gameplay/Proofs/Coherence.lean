import Mathlib.Data.List.Sort
import Gameplay.Game
import Gameplay.Proofs.Places

/-!
# Coherent worlds

In a coherent world the program is that of the project, instances have ids of their own, which have been
given out, and belong to objects of the program, and every wait is a place in an event of its instance.

## Main results

Every part of a tick keeps a world coherent (`Acted.coherent`, `park_coherent`, `takeDue_coherent`,
`commit_coherent`, `stepTransition_coherent`, `followRequest_coherent`), and so do the calls of a host.
-/

namespace Gameplay

/-! ### lists of instances -/

theorem insertBy_eq {α : Type} (r : α → α → Prop) [DecidableRel r] (a : α) (as : List α) :
    insertBy r a as = as.orderedInsert r a := by
  induction as with
  | nil => rfl
  | cons b bs ih => rw [insertBy, ih, List.orderedInsert_cons]

/-- This is the insertion sort of the library. -/
theorem sortBy_eq {α : Type} (r : α → α → Prop) [DecidableRel r] (as : List α) :
    sortBy r as = as.insertionSort r := by
  rw [sortBy, List.insertionSort, funext₂ (insertBy_eq r)]

theorem sortOn_perm {α : Type} (key : α → Nat) (as : List α) : (sortOn key as).Perm as := by
  rw [sortOn, sortBy_eq]
  exact List.perm_insertionSort _ as

theorem related_mem {α β : Type} {R : α → β → Prop} {as : List α} {bs : List β}
    (related : List.Forall₂ R as bs) {b : β} (member : b ∈ bs) : ∃ a ∈ as, R a b := by
  induction related with
  | nil => cases member
  | cons head _ ih =>
    rcases List.mem_cons.mp member with rfl | later
    · exact ⟨_, List.mem_cons_self, head⟩
    · obtain ⟨a, found, holds⟩ := ih later
      exact ⟨a, List.mem_cons_of_mem _ found, holds⟩

namespace World

variable {τ : Type} {w w' : World τ}

theorem mem_live {i : Instance τ} : i ∈ w.live ↔ i ∈ w.instances ∧ i.destroyed = false := by
  rw [live, (sortOn_perm _ _).mem_iff, List.mem_filter, Bool.not_eq_true']

theorem live_ids (unique : (w.instances.map (·.id)).Nodup) : (w.live.map (·.id)).Nodup := by
  have sorted := (sortOn_perm (·.id) (w.instances.filter fun i => !i.destroyed)).map (·.id)
  exact sorted.nodup_iff.mpr (unique.sublist (List.filter_sublist.map _))

/-- An instance is found by its id. -/
theorem instance?_of_mem (unique : (w.instances.map (·.id)).Nodup) {i : Instance τ}
    (member : i ∈ w.instances) : w.instance? i.id = some i := by
  -- the instance that is found first has the same id, so it is the same instance
  cases found : w.instance? i.id with
  | none =>
    have none := List.find?_eq_none.mp found i member
    simp at none
  | some j =>
    obtain ⟨present, same⟩ := instance?_some found
    rw [List.inj_on_of_nodup_map unique present member same]

theorem isSuspended_iff (unique : (w.instances.map (·.id)).Nodup) {i : Instance τ}
    (member : i ∈ w.instances) {slot : Nat} :
    w.isSuspended i.id slot = true ↔ slot ∈ i.waits.map (·.slot) := by
  simp [isSuspended, instance?_of_mem unique member, Waits.suspends]

end World

/-! ### coherence -/

/-- A wait that an instance of an object can hold: it is a place in an event of the object, and was
issued no later than now. -/
structure Wait.Fits {τ : Type} (p : Program) (tick object : Nat) (wait : Wait τ) : Prop where
  path : ∃ body, p.body? object wait.slot = some body ∧ p.arena.Path body wait.frames
  issued : wait.issued ≤ tick

/-- An instance of an object, with an id that has been given out and at most one wait for each slot. -/
structure Instance.Fits {τ : Type} (p : Program) (tick lastId : Nat) (i : Instance τ) : Prop where
  object : (p.object? i.object).isSome
  given : i.id ≤ lastId
  slots : (i.waits.map (·.slot)).Nodup
  waits : ∀ wait ∈ i.waits, wait.Fits p tick i.object

/-- A world in which the program, the instances and their waits fit together. -/
structure World.Coherent {τ : Type} (w : World τ) : Prop where
  compiled : ∃ size, Program.compile w.project size = .ok w.program
  ids : (w.instances.map (·.id)).Nodup
  instances : ∀ i ∈ w.instances, i.Fits w.program w.clock.tick w.lastId

theorem Wait.Fits.later {τ : Type} {p : Program} {tick now object : Nat} {wait : Wait τ}
    (fits : wait.Fits p tick object) (later : tick ≤ now) : wait.Fits p now object :=
  ⟨fits.path, Nat.le_trans fits.issued later⟩

theorem Instance.Fits.later {τ : Type} {p : Program} {tick now lastId newId : Nat} {i : Instance τ}
    (fits : i.Fits p tick lastId) (later : tick ≤ now) (more : lastId ≤ newId) : i.Fits p now newId :=
  ⟨fits.object, Nat.le_trans fits.given more, fits.slots, fun wait held => (fits.waits wait held).later later⟩

namespace World

variable {τ : Type} {w w' : World τ}

/-- A change to the instances that keeps their ids. -/
theorem Coherent.mapped (coherent : w.Coherent) {f : Instance τ → Instance τ} (project : w'.project = w.project)
    (program : w'.program = w.program) (instances : w'.instances = w.instances.map f)
    (ids : ∀ i, (f i).id = i.id)
    (fits : ∀ i ∈ w.instances, (f i).Fits w'.program w'.clock.tick w'.lastId) : w'.Coherent := by
  refine ⟨by rw [project, program]; exact coherent.compiled, ?_, ?_⟩
  · have same : w'.instances.map (·.id) = w.instances.map (·.id) := by
      rw [instances, List.map_map]
      exact List.map_congr_left fun i _ => ids i
    rw [same]
    exact coherent.ids
  · intro j member
    rw [instances] at member
    obtain ⟨i, present, rfl⟩ := List.mem_map.mp member
    exact fits i present

/-- A change to an instance that keeps its id, its object and its waits. -/
theorem Coherent.modify (coherent : w.Coherent) {id : Nat} {f : Instance τ → Instance τ}
    (same : ∀ i, (f i).id = i.id ∧ (f i).object = i.object ∧ (f i).waits = i.waits) :
    (w.modify id f).Coherent := by
  refine coherent.mapped rfl rfl rfl (fun i => ?_) fun i member => ?_
  · split
    · exact (same i).1
    · rfl
  · have fits := coherent.instances i member
    obtain ⟨sameId, sameObject, sameWaits⟩ := same i
    split
    · exact ⟨sameObject ▸ fits.object, sameId ▸ fits.given, sameWaits ▸ fits.slots,
        sameObject ▸ sameWaits ▸ fits.waits⟩
    · exact fits

theorem Acted.coherent {v : Invocation} (acted : w.Acted v w') (coherent : w.Coherent) : w'.Coherent := by
  refine ⟨by rw [acted.project, acted.program]; exact coherent.compiled, ?_, ?_⟩
  · rw [ids_of_acted acted.instances]
    exact coherent.ids
  · intro j member
    obtain ⟨i, present, change⟩ := related_mem acted.instances member
    have fits := coherent.instances i present
    rw [acted.program, acted.clock, acted.lastId]
    exact ⟨change.object ▸ fits.object, change.id ▸ fits.given, change.waits ▸ fits.slots,
      change.object ▸ change.waits ▸ fits.waits⟩

/-- An instance of an object is in the world, destroyed or not. -/
def Has (w : World τ) (id object : Nat) : Prop := ∃ i ∈ w.instances, i.id = id ∧ i.object = object

variable [Scalar τ]

/-- An instance can hold a wait that is issued for a slot that is free. -/
theorem park_coherent (coherent : w.Coherent) {v : Invocation} {duration : τ} {frames : List Frame}
    {body : Nat} (present : w.Has v.actor v.object) (found : w.program.body? v.object v.slot = some body)
    (path : w.program.arena.Path body frames)
    (free : ∀ i ∈ w.instances, i.id = v.actor → v.slot ∉ i.waits.map (·.slot)) :
    (w.park v duration frames).Coherent := by
  refine coherent.mapped rfl rfl rfl (fun i => ?_) fun i member => ?_
  · split <;> rfl
  · have fits := coherent.instances i member
    split
    next mine =>
      obtain ⟨own, there, sameId, sameObject⟩ := present
      -- ids are distinct, so the wait is held by the instance that issued it, and is a place in its event
      have only : i = own := List.inj_on_of_nodup_map coherent.ids member there (mine.trans sameId.symm)
      refine ⟨fits.object, fits.given, ?_, ?_⟩
      · -- the slot of the new wait was free
        rw [List.map_append]
        exact (List.nodup_append_comm.mp (List.nodup_cons.mpr ⟨free i member mine, fits.slots⟩))
      · intro wait held
        rcases List.mem_append.mp held with old | new
        · exact fits.waits wait old
        · cases List.mem_singleton.mp new
          refine ⟨⟨body, ?_, path⟩, Nat.le_refl _⟩
          rw [only, sameObject]
          exact found
    · exact fits

end World

/-! ### waits that end -/

namespace Waits

variable {τ : Type} [Scalar τ]

/-- Aging changes nothing but the time that has passed. -/
theorem age_same (delta : τ) (tick : Nat) (wait : Wait τ) :
    Wait.age delta tick wait = { wait with elapsed := (Wait.age delta tick wait).elapsed } := by
  unfold Wait.age
  split <;> rfl

theorem age_fits {delta : τ} {tick now object : Nat} {p : Program} {wait : Wait τ}
    (fits : wait.Fits p now object) : (Wait.age delta tick wait).Fits p now object := by
  rw [age_same]
  exact ⟨fits.path, fits.issued⟩

/-- Every wait ends or goes on, and none does both. -/
theorem advance_perm (waits : List (Wait τ)) (delta : τ) (tick : Nat) :
    ((advance waits delta tick).1 ++ (advance waits delta tick).2).Perm
      (waits.map (Wait.age delta tick)) := by
  have sorted := sortOn_perm (·.slot) ((waits.map (Wait.age delta tick)).filter (Wait.endsIn tick))
  exact (sorted.append_right _).trans (List.filter_append_perm _ _)

/-- The waits that end and those that go on are together all that there were. -/
theorem advance_slots (waits : List (Wait τ)) (delta : τ) (tick : Nat) :
    ((advance waits delta tick).1.map (·.slot) ++ (advance waits delta tick).2.map (·.slot)).Perm
      (waits.map (·.slot)) := by
  have slots := (advance_perm waits delta tick).map (·.slot)
  rw [List.map_append, List.map_map] at slots
  have same : (waits.map ((·.slot) ∘ Wait.age delta tick)) = waits.map (·.slot) :=
    List.map_congr_left fun wait _ => by rw [Function.comp_apply, age_same]
  rwa [same] at slots

/-- What ends in a tick was held, was issued before, and has reached its duration. -/
theorem mem_due {waits : List (Wait τ)} {delta : τ} {tick : Nat} {wait : Wait τ} :
    wait ∈ (advance waits delta tick).1 ↔
      (∃ held ∈ waits, Wait.age delta tick held = wait) ∧ wait.duration ≤ wait.elapsed ∧
        wait.issued ≠ tick := by
  simp [advance, (sortOn_perm _ _).mem_iff, Wait.endsIn, Wait.isDue]

theorem mem_kept {waits : List (Wait τ)} {delta : τ} {tick : Nat} {wait : Wait τ} :
    wait ∈ (advance waits delta tick).2 ↔
      (∃ held ∈ waits, Wait.age delta tick held = wait) ∧
        (wait.duration ≤ wait.elapsed → wait.issued = tick) := by
  simp [advance, Wait.endsIn, Wait.isDue, imp_iff_not_or]

end Waits

namespace World

variable {τ : Type} [Scalar τ] {w w' : World τ}

theorem takeDue_cases {id : Nat} {due : List (Wait τ)} (taken : w.takeDue id = (w', due)) :
    (w.instance? id = none ∧ w' = w ∧ due = []) ∨
    ∃ i, w.instance? id = some i ∧ due = (Waits.advance i.waits w.clock.delta w.clock.tick).1 ∧
      w' = w.modify id fun j =>
        { j with waits := (Waits.advance i.waits w.clock.delta w.clock.tick).2 } := by
  unfold takeDue at taken
  split at taken
  next absent => cases taken; exact .inl ⟨absent, rfl, rfl⟩
  next i found => cases taken; exact .inr ⟨i, found, rfl, rfl⟩

theorem takeDue_coherent (coherent : w.Coherent) {id : Nat} {due : List (Wait τ)}
    (taken : w.takeDue id = (w', due)) : w'.Coherent := by
  rcases takeDue_cases taken with ⟨_, rfl, _⟩ | ⟨i, found, _, rfl⟩
  · exact coherent
  · obtain ⟨there, rfl⟩ := instance?_some found
    refine coherent.mapped rfl rfl rfl (fun j => ?_) fun j member => ?_
    · split <;> rfl
    · have fits := coherent.instances j member
      split
      next same =>
        have only : j = i := List.inj_on_of_nodup_map coherent.ids member there same
        subst only
        refine ⟨fits.object, fits.given, ?_, fun wait held => ?_⟩
        · -- the waits that go on are some of those that were held
          have slots := Waits.advance_slots j.waits w.clock.delta w.clock.tick
          exact (List.nodup_append.mp (slots.nodup_iff.mpr fits.slots)).2.1
        · obtain ⟨⟨old, before, rfl⟩, _⟩ := Waits.mem_kept.mp held
          exact Waits.age_fits (fits.waits old before)
      · exact fits

theorem applyVelocities_coherent (coherent : w.Coherent) : w.applyVelocities.Coherent := by
  refine coherent.mapped rfl rfl rfl (fun i => ?_) fun i member => ?_
  · split <;> rfl
  · have fits := coherent.instances i member
    split
    · exact fits
    · exact ⟨fits.object, fits.given, fits.slots, fits.waits⟩

end World

/-! ### instances that come and go -/

namespace World

variable {τ : Type} {w : World τ}

theorem spawn_coherent (coherent : w.Coherent) (object : Nat) (position : Vec Float32) (origin : Origin) :
    (w.spawn object position origin).Coherent := by
  unfold spawn
  split
  · exact coherent
  next o found =>
    refine ⟨coherent.compiled, ?_, fun i member => ?_⟩
    · rw [List.map_append]
      -- the new id is larger than all that have been given out
      refine List.nodup_append.mpr ⟨coherent.ids, List.nodup_singleton _, fun id old new fresh => ?_⟩
      obtain ⟨i, member, rfl⟩ := List.mem_map.mp old
      have bound := (coherent.instances i member).given
      simp only [List.map_cons, List.map_nil, List.mem_singleton, nextId] at fresh
      omega
    · rcases List.mem_append.mp member with old | new
      · exact (coherent.instances i old).later (Nat.le_refl _) (Nat.le_succ _)
      · cases List.mem_singleton.mp new
        exact ⟨by rw [found]; rfl, Nat.le_refl _, .nil, nofun⟩

theorem spawnPlaced_coherent (coherent : w.Coherent) (placed : List (Placement × Nat)) :
    (w.spawnPlaced placed).Coherent := by
  unfold spawnPlaced
  induction placed generalizing w with
  | nil => exact coherent
  | cons first rest ih => exact ih (spawn_coherent coherent ..)

theorem enterRoom_coherent (coherent : w.Coherent) (room : String) : (w.enterRoom room).world.Coherent := by
  unfold enterRoom
  split
  · exact coherent
  · split
    · exact coherent
    · refine spawnPlaced_coherent ?_ _
      exact ⟨coherent.compiled, coherent.ids, coherent.instances⟩

theorem changeRoom_coherent (coherent : w.Coherent) (room : String) :
    (w.changeRoom room).world.Coherent := by
  have left : w.leaveRoom.Coherent := ⟨coherent.compiled, .nil, nofun⟩
  exact enterRoom_coherent left room

theorem commit_coherent (coherent : w.Coherent) : w.commit.Coherent := by
  unfold commit
  dsimp only
  induction w.pending.spawns with
  | nil =>
    refine ⟨coherent.compiled, coherent.ids.sublist (List.filter_sublist.map _), fun i member => ?_⟩
    exact coherent.instances i (List.mem_filter.mp member).1
  | cons s spawns ih => exact spawn_coherent ih ..

variable [Scalar τ]

theorem stepTransition_coherent (coherent : w.Coherent) : w.stepTransition.world.Coherent := by
  unfold stepTransition
  generalize w.transition.advance w.clock.delta = moved
  obtain ⟨transition, arrived⟩ := moved
  have still : World.Coherent { w with transition := transition } :=
    ⟨coherent.compiled, coherent.ids, coherent.instances⟩
  cases arrived with
  | none => exact still
  | some room =>
    have changed := changeRoom_coherent still room
    dsimp only [Played.andThen]
    split
    · exact ⟨changed.compiled, changed.ids, changed.instances⟩
    · exact changed

theorem followRequest_coherent (coherent : w.Coherent) : w.followRequest.world.Coherent := by
  unfold followRequest
  split
  · exact coherent
  · dsimp only
    split
    · exact changeRoom_coherent ⟨coherent.compiled, coherent.ids, coherent.instances⟩ _
    · split <;> exact ⟨coherent.compiled, coherent.ids, coherent.instances⟩

theorem stop_coherent (coherent : w.Coherent) : w.stop.Coherent := by
  refine coherent.mapped rfl rfl rfl (fun _ => rfl) fun i member => ?_
  have fits := coherent.instances i member
  exact ⟨fits.object, fits.given, .nil, nofun⟩

theorem initial_coherent (settings : Settings) (random : Random) :
    (World.initial settings random : World τ).Coherent :=
  ⟨⟨.zero, rfl⟩, .nil, nofun⟩

end World

end Gameplay
