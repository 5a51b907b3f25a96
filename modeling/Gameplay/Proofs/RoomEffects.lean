import Gameplay.Game

/-!
# What the end of a tick keeps

Commits, transitions and room changes are about instances, pending effects, the room and the transition.
The program, the time, the variables, what the host is shown and the journal stay (`SameRun`). Instances
may go, and those that come have new ids (`Renewed`).
-/

namespace Gameplay.World

variable {τ : Type} {w w' w'' : World τ}

/-- Two worlds that differ at most in what belongs to a room, in the transition and in the status. -/
structure SameRun (w w' : World τ) : Prop where
  settings : w'.settings = w.settings := by rfl
  project : w'.project = w.project := by rfl
  program : w'.program = w.program := by rfl
  clock : w'.clock = w.clock := by rfl
  keys : w'.keys = w.keys := by rfl
  toasts : w'.toasts = w.toasts := by rfl
  globals : w'.globals = w.globals := by rfl
  score : w'.score = w.score := by rfl
  random : w'.random = w.random := by rfl
  sounds : w'.sounds = w.sounds := by rfl
  journal : w'.journal = w.journal := by rfl

theorem SameRun.trans (first : w.SameRun w') (second : w'.SameRun w'') : w.SameRun w'' where
  settings := second.settings.trans first.settings
  project := second.project.trans first.project
  program := second.program.trans first.program
  clock := second.clock.trans first.clock
  keys := second.keys.trans first.keys
  toasts := second.toasts.trans first.toasts
  globals := second.globals.trans first.globals
  score := second.score.trans first.score
  random := second.random.trans first.random
  sounds := second.sounds.trans first.sounds
  journal := second.journal.trans first.journal

/-- Instances may have gone, and those that have come have ids that had not been given out. -/
structure Renewed (w w' : World τ) : Prop where
  lastId : w.lastId ≤ w'.lastId
  instances : ∀ i ∈ w'.instances, w.lastId < i.id ∨ i ∈ w.instances

theorem Renewed.refl (w : World τ) : w.Renewed w := ⟨Nat.le_refl _, fun _ member => .inr member⟩

theorem Renewed.trans (first : w.Renewed w') (second : w'.Renewed w'') : w.Renewed w'' := by
  refine ⟨Nat.le_trans first.lastId second.lastId, fun i member => ?_⟩
  rcases second.instances i member with new | old
  · exact .inl (Nat.lt_of_le_of_lt first.lastId new)
  · exact first.instances i old

/-! ### spawns and commits -/

theorem spawn_sameRun (w : World τ) (object : Nat) (position : Vec Float32) (origin : Origin) :
    w.SameRun (w.spawn object position origin) := by
  unfold spawn
  split
  · exact {}
  · exact {}

theorem spawn_renewed (w : World τ) (object : Nat) (position : Vec Float32) (origin : Origin) :
    w.Renewed (w.spawn object position origin) := by
  unfold spawn
  split
  · exact .refl w
  · refine ⟨Nat.le_succ _, fun i member => ?_⟩
    rcases List.mem_append.mp member with old | new
    · exact .inr old
    · cases List.mem_singleton.mp new
      exact .inl (Nat.lt_succ_self _)

theorem spawnPlaced_sameRun (w : World τ) (placed : List (Placement × Nat)) :
    w.SameRun (w.spawnPlaced placed) := by
  unfold spawnPlaced
  induction placed generalizing w with
  | nil => exact {}
  | cons first rest ih => exact (spawn_sameRun w ..).trans (ih _)

theorem spawnPlaced_renewed (w : World τ) (placed : List (Placement × Nat)) :
    w.Renewed (w.spawnPlaced placed) := by
  unfold spawnPlaced
  induction placed generalizing w with
  | nil => exact .refl w
  | cons first rest ih => exact (spawn_renewed w ..).trans (ih _)

theorem commit_sameRun (w : World τ) : w.SameRun w.commit := by
  unfold commit
  dsimp only
  induction w.pending.spawns with
  | nil => exact {}
  | cons s spawns ih => exact ih.trans (spawn_sameRun ..)

theorem commit_renewed (w : World τ) : w.Renewed w.commit := by
  unfold commit
  dsimp only
  -- spawns are kept the latest first, so the first one is carried out last
  induction w.pending.spawns with
  | nil => exact ⟨Nat.le_refl _, fun i member => .inr (List.mem_filter.mp member).1⟩
  | cons s spawns ih => exact ih.trans (spawn_renewed ..)

/-! ### rooms -/

theorem enterRoom_sameRun (w : World τ) (room : String) : w.SameRun (w.enterRoom room).world := by
  unfold enterRoom
  split
  · exact {}
  next found _ =>
    split
    · exact {}
    next placed _ =>
      have entered : w.SameRun { w with room := some ⟨found.id, ⟨found.width, found.height⟩⟩ } := {}
      exact entered.trans (spawnPlaced_sameRun _ placed)

theorem changeRoom_sameRun (w : World τ) (room : String) : w.SameRun (w.changeRoom room).world := by
  have left : w.SameRun w.leaveRoom := {}
  exact left.trans (enterRoom_sameRun _ room)

theorem enterRoom_renewed (w : World τ) (room : String) : w.Renewed (w.enterRoom room).world := by
  unfold enterRoom
  split
  · exact .refl w
  next found _ =>
    split
    · exact .refl w
    next placed _ =>
      have entered : w.Renewed { w with room := some ⟨found.id, ⟨found.width, found.height⟩⟩ } :=
        ⟨Nat.le_refl _, fun _ member => .inr member⟩
      exact entered.trans (spawnPlaced_renewed _ placed)

/-- After a room change no instance is left that was there before. -/
theorem changeRoom_fresh (w : World τ) (room : String) :
    w.lastId ≤ (w.changeRoom room).world.lastId ∧
      ∀ i ∈ (w.changeRoom room).world.instances, w.lastId < i.id := by
  -- leaving the room removes all instances, so none of those after it is an old one
  have renewed := enterRoom_renewed w.leaveRoom room
  refine ⟨renewed.lastId, fun i member => ?_⟩
  rcases renewed.instances i member with new | old
  · exact new
  · cases old

theorem changeRoom_renewed (w : World τ) (room : String) : w.Renewed (w.changeRoom room).world :=
  ⟨(changeRoom_fresh w room).1, fun i member => .inl ((changeRoom_fresh w room).2 i member)⟩

variable [Scalar τ]

theorem stepTransition_sameRun (w : World τ) : w.SameRun w.stepTransition.world := by
  unfold stepTransition
  generalize w.transition.advance w.clock.delta = moved
  obtain ⟨transition, arrived⟩ := moved
  have still : w.SameRun { w with transition := transition } := {}
  cases arrived with
  | none => exact still
  | some room =>
    have changed := still.trans (changeRoom_sameRun _ room)
    dsimp only [Played.andThen]
    split
    · exact changed.trans {}
    · exact changed

theorem stepTransition_renewed (w : World τ) : w.Renewed w.stepTransition.world := by
  unfold stepTransition
  generalize w.transition.advance w.clock.delta = moved
  obtain ⟨transition, arrived⟩ := moved
  have still : w.Renewed { w with transition := transition } :=
    ⟨Nat.le_refl _, fun _ member => .inr member⟩
  cases arrived with
  | none => exact still
  | some room =>
    have changed := still.trans (changeRoom_renewed _ room)
    dsimp only [Played.andThen]
    split
    · exact ⟨changed.lastId, changed.instances⟩
    · exact changed

theorem followRequest_sameRun (w : World τ) : w.SameRun w.followRequest.world := by
  unfold followRequest
  split
  · exact {}
  · dsimp only
    split
    · have asked : w.SameRun { w with pending := { w.pending with room := none } } := {}
      exact asked.trans (changeRoom_sameRun _ _)
    · split
      · exact {}
      · exact {}

theorem followRequest_renewed (w : World τ) : w.Renewed w.followRequest.world := by
  unfold followRequest
  split
  · exact .refl w
  · dsimp only
    split
    · have asked : w.Renewed { w with pending := { w.pending with room := none } } :=
        ⟨Nat.le_refl _, fun _ member => .inr member⟩
      exact asked.trans (changeRoom_renewed _ _)
    · split
      · exact ⟨Nat.le_refl _, fun _ member => .inr member⟩
      · exact ⟨Nat.le_refl _, fun _ member => .inr member⟩

end Gameplay.World
