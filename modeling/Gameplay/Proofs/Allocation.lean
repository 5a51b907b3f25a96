import Gameplay.Proofs.Instants
import Gameplay.Proofs.Ledger

/-!
# Ids are given out once

Ids are numbers that follow one another: an instance that is created takes the one after the last. Nothing
but the start of another run sets the counter back, also not a change of rooms, so an id that has been given
out belongs to the same instance for as long as the run goes on.

## Main results

`Moved.carries`: the instances that a step creates take the ids that follow.
`ids_given_once`: ids over whole runs, and what holds of a live run between its calls.

## Proof strategy

`World.Creates` says what the parts of the end of a tick create, and `World.Carries` what is created between
any two worlds of a run. Both compose, so each part of a tick has one lemma, and a run is the composition of
its steps.
-/

namespace Gameplay

variable {τ : Type}

/-- An instance as it is created: nothing has happened to it yet. -/
structure Instance.New (p : Program) (i : Instance τ) : Prop where
  locals : ∃ o, p.object? i.object = some o ∧ i.locals = .ofDeclarations o.declarations
  waits : i.waits = []
  fresh : i.fresh = true
  destroyed : i.destroyed = false

namespace World

variable {w w' w'' : World τ} {created more : List (Instance τ)}

/-! ### what creates instances -/

/-- Instances are created, in order, with the ids that follow the last one given out. Others may go. -/
structure Creates (w : World τ) (created : List (Instance τ)) (w' : World τ) : Prop where
  program : w'.program = w.program
  ids : created.map (·.id) = List.range' (w.lastId + 1) created.length
  lastId : w'.lastId = w.lastId + created.length
  new : ∀ i ∈ created, i.New w.program
  instances : ∀ i ∈ w'.instances, i ∈ w.instances ++ created

/-- Ids that follow in two parts follow in one. -/
private theorem ids_append (ids : created.map (·.id) = List.range' (w.lastId + 1) created.length)
    (lastId : w'.lastId = w.lastId + created.length)
    (others : more.map (·.id) = List.range' (w'.lastId + 1) more.length) :
    (created ++ more).map (·.id) = List.range' (w.lastId + 1) (created ++ more).length := by
  have onward : w'.lastId + 1 = w.lastId + 1 + created.length := by omega
  rw [List.map_append, ids, others, onward, List.length_append, ← List.range'_append_1]

theorem Creates.trans (first : w.Creates created w') (second : w'.Creates more w'') :
    w.Creates (created ++ more) w'' := by
  constructor
  · exact second.program.trans first.program
  · exact ids_append first.ids first.lastId second.ids
  · rw [second.lastId, first.lastId, List.length_append, Nat.add_assoc]
  · intro i listed
    rcases List.mem_append.mp listed with earlier | later
    · exact first.new i earlier
    · exact first.program ▸ second.new i later
  · intro i member
    rw [← List.append_assoc]
    rcases List.mem_append.mp (second.instances i member) with old | new
    · exact List.mem_append_left _ (first.instances i old)
    · exact List.mem_append_right _ new

/-- Nothing is created where no instance is new. -/
theorem Creates.none (program : w'.program = w.program) (lastId : w'.lastId = w.lastId)
    (instances : ∀ i ∈ w'.instances, i ∈ w.instances) : w.Creates [] w' :=
  ⟨program, rfl, lastId, nofun, fun i member => List.mem_append_left _ (instances i member)⟩

theorem Creates.refl (w : World τ) : w.Creates [] w := .none rfl rfl fun _ member => member

theorem spawn_creates (w : World τ) (object : Nat) (position : Vec Float32) (origin : Origin) :
    ∃ created, w.Creates created (w.spawn object position origin) := by
  unfold spawn
  split
  · exact ⟨[], .refl w⟩
  next o found =>
    let i : Instance τ := ⟨w.lastId + 1, object, origin, position, .zero, 0, .ofSize o.size o.solid,
      .ofDeclarations o.declarations, [], true, false⟩
    refine ⟨[i], rfl, rfl, rfl, fun j listed => ?_, fun j member => member⟩
    cases List.mem_singleton.mp listed
    exact ⟨⟨o, found, rfl⟩, rfl, rfl, rfl⟩

theorem spawnPlaced_creates (w : World τ) (placed : List (Placement × Nat)) :
    ∃ created, w.Creates created (w.spawnPlaced placed) := by
  unfold spawnPlaced
  induction placed generalizing w with
  | nil => exact ⟨[], .refl w⟩
  | cons first rest ih =>
    obtain ⟨one, creates⟩ := spawn_creates w first.2 ⟨first.1.x, first.1.y⟩
      ⟨some first.1.id, first.1.layer⟩
    obtain ⟨others, onward⟩ := ih (w.spawn first.2 ⟨first.1.x, first.1.y⟩
      ⟨some first.1.id, first.1.layer⟩)
    exact ⟨one ++ others, creates.trans onward⟩

theorem enterRoom_creates (w : World τ) (room : String) :
    ∃ created, w.Creates created (w.enterRoom room).world := by
  unfold enterRoom
  split
  · exact ⟨[], .refl w⟩
  next found _ =>
    split
    · exact ⟨[], .refl w⟩
    next placed _ =>
      have entered : w.Creates [] { w with room := some ⟨found.id, ⟨found.width, found.height⟩⟩ } :=
        .none rfl rfl fun _ member => member
      obtain ⟨created, creates⟩ := spawnPlaced_creates _ placed
      exact ⟨_, entered.trans creates⟩

theorem changeRoom_creates (w : World τ) (room : String) :
    ∃ created, w.Creates created (w.changeRoom room).world := by
  -- all instances go, but the counter stays
  have left : w.Creates [] w.leaveRoom := .none rfl rfl nofun
  obtain ⟨created, creates⟩ := enterRoom_creates w.leaveRoom room
  exact ⟨_, left.trans creates⟩

theorem commit_creates (w : World τ) : ∃ created, w.Creates created w.commit := by
  unfold commit
  dsimp only
  -- spawns are kept the latest first, so the induction adds the last one
  induction w.pending.spawns with
  | nil => exact ⟨[], .none rfl rfl fun j member => (List.mem_filter.mp member).1⟩
  | cons s spawns ih =>
    obtain ⟨earlier, creates⟩ := ih
    obtain ⟨last, onward⟩ := spawn_creates _ s.object s.position ⟨.none, .none⟩
    exact ⟨_, creates.trans onward⟩

theorem stepTransition_creates [Scalar τ] (w : World τ) :
    ∃ created, w.Creates created w.stepTransition.world := by
  unfold stepTransition
  generalize w.transition.advance w.clock.delta = moved
  obtain ⟨transition, arrived⟩ := moved
  have still : w.Creates [] { w with transition := transition } := .none rfl rfl fun _ member => member
  cases arrived with
  | none => exact ⟨[], still⟩
  | some room =>
    obtain ⟨created, creates⟩ := changeRoom_creates { w with transition := transition } room
    have swapped := still.trans creates
    dsimp only [Played.andThen]
    split
    · exact ⟨_, swapped.program, swapped.ids, swapped.lastId, swapped.new, swapped.instances⟩
    · exact ⟨_, swapped⟩

theorem followRequest_creates [Scalar τ] (w : World τ) :
    ∃ created, w.Creates created w.followRequest.world := by
  unfold followRequest
  split
  · exact ⟨[], .refl w⟩
  · have freed : w.Creates [] { w with pending := { w.pending with room := .none } } :=
      .none rfl rfl fun _ member => member
    dsimp only
    split
    · obtain ⟨created, creates⟩ := changeRoom_creates { w with pending := { w.pending with room := .none } } _
      exact ⟨_, freed.trans creates⟩
    · split
      · exact ⟨[], freed⟩
      · exact ⟨[], .none rfl rfl fun _ member => member⟩

/-! ### from one world of a run to another -/

/-- From one world of a run to a later one: what was created in between, in order, took the ids that follow
the last one given out, and every instance was there before or was created. -/
structure Carries (w : World τ) (created : List (Instance τ)) (w' : World τ) : Prop where
  ids : created.map (·.id) = List.range' (w.lastId + 1) created.length
  lastId : w'.lastId = w.lastId + created.length
  persist : ∀ j ∈ w'.instances, ∃ i ∈ w.instances ++ created, i.Persists j

theorem Creates.carries (creates : w.Creates created w') : w.Carries created w' :=
  ⟨creates.ids, creates.lastId, fun i member => ⟨i, creates.instances i member, .refl i⟩⟩

/-- What was created later comes after what was created before. -/
theorem Carries.trans (first : w.Carries created w') (second : w'.Carries more w'') :
    w.Carries (created ++ more) w'' := by
  constructor
  · exact ids_append first.ids first.lastId second.ids
  · rw [second.lastId, first.lastId, List.length_append, Nat.add_assoc]
  · intro k member
    obtain ⟨j, there, persists⟩ := second.persist k member
    rw [← List.append_assoc]
    rcases List.mem_append.mp there with old | new
    · obtain ⟨i, before, persisted⟩ := first.persist j old
      exact ⟨i, List.mem_append_left _ before, persisted.trans persists⟩
    · exact ⟨j, List.mem_append_right _ new, persists⟩

/-- Between two worlds in which nothing is created, instances stay what they are or go. -/
theorem Carries.none (lastId : w'.lastId = w.lastId)
    (persist : ∀ j ∈ w'.instances, ∃ i ∈ w.instances, i.Persists j) : w.Carries [] w' := by
  refine ⟨rfl, lastId, fun j member => ?_⟩
  obtain ⟨i, before, persists⟩ := persist j member
  exact ⟨i, List.mem_append_left _ before, persists⟩

theorem Carries.same (lastId : w'.lastId = w.lastId) (instances : w'.instances = w.instances) :
    w.Carries [] w' := by
  apply Carries.none lastId
  intro j member
  rw [instances] at member
  exact ⟨j, member, .refl j⟩

theorem Carries.mapped {f : Instance τ → Instance τ} (lastId : w'.lastId = w.lastId)
    (instances : w'.instances = w.instances.map f) (same : ∀ i : Instance τ, i.Persists (f i)) :
    w.Carries [] w' := by
  apply Carries.none lastId
  intro j member
  rw [instances] at member
  obtain ⟨i, before, rfl⟩ := List.mem_map.mp member
  exact ⟨i, before, same i⟩

/-- No id is given out twice: an instance with an id that had been given out was there before. -/
theorem Carries.before (carries : w.Carries created w') {j : Instance τ} (member : j ∈ w'.instances)
    (given : j.id ≤ w.lastId) : ∃ i ∈ w.instances, i.Persists j := by
  obtain ⟨i, origin, persists⟩ := carries.persist j member
  rcases List.mem_append.mp origin with old | new
  · exact ⟨i, old, persists⟩
  · have listed : i.id ∈ List.range' (w.lastId + 1) created.length :=
      carries.ids ▸ List.mem_map_of_mem new
    rw [List.mem_range'_1, ← persists.id] at listed
    omega

variable [Scalar τ]

theorem stop_carries (w : World τ) : w.Carries [] w.stop :=
  .mapped rfl rfl fun _ => ⟨rfl, rfl, rfl, rfl⟩

end World

namespace Moment

variable [Scalar τ] {m next : Moment τ}

private theorem strode_carries {w w' : World τ} {v : Invocation} {frames : List Frame} {stride : Stride τ}
    (strode : World.Strode v w frames w' stride) : w.Carries [] w' := by
  obtain ⟨w₀, status, entries, change, rfl, _⟩ := strode.acted
  refine World.Carries.none ?_ fun j member => ?_
  · exact change.lastId
  · obtain ⟨i, before, acted⟩ := related_mem change.instances member
    exact ⟨i, before, acted.id, acted.object, acted.origin, acted.collider⟩

/-- The instances that a step creates take the ids that follow the last one given out. -/
theorem Moved.carries (moved : Moved m next) : ∃ created, m.world.Carries created next.world := by
  cases moved with
  | walk strode | halt strode | fail strode => exact ⟨[], strode_carries strode⟩
  | park strode =>
    refine ⟨_, (strode_carries strode).trans (.mapped rfl rfl fun i => ?_)⟩
    split <;> exact ⟨rfl, rfl, rfl, rfl⟩
  | create =>
    -- the instance is no longer fresh, which is no part of its identity
    refine ⟨[], .mapped rfl rfl fun i => ?_⟩
    split <;> exact ⟨rfl, rfl, rfl, rfl⟩
  | step taken =>
    rcases World.takeDue_cases taken with ⟨_, rfl, _⟩ | ⟨_, _, _, rfl⟩
    · exact ⟨[], .same rfl rfl⟩
    · refine ⟨[], .mapped rfl rfl fun i => ?_⟩
      split <;> exact ⟨rfl, rfl, rfl, rfl⟩
  | stepped =>
    refine ⟨[], .mapped rfl rfl fun i => ?_⟩
    split <;> exact ⟨rfl, rfl, rfl, rfl⟩
  | handle _ _ taken => subst taken; exact ⟨[], .same rfl rfl⟩
  | commit => exact (World.commit_creates _).imp fun _ => World.Creates.carries
  | transition _ | transitionFailed _ => exact (World.stepTransition_creates _).imp fun _ => World.Creates.carries
  | request _ | requestFailed _ => exact (World.followRequest_creates _).imp fun _ => World.Creates.carries
  | finish _ | pass _ | drop _ | start _ _ | resume _ _ | created | collided | handled _ | close =>
    exact ⟨[], .same rfl rfl⟩

theorem Steps.carries {last : Moment τ} (steps : Steps m last) :
    ∃ created, m.world.Carries created last.world := by
  refine steps.invariant (P := fun last => ∃ created, m.world.Carries created last.world) ?_ ?_
  · exact ⟨[], .same rfl rfl⟩
  · rintro middle last moved ⟨before, carries⟩
    obtain ⟨now, onward⟩ := moved.carries
    exact ⟨_, carries.trans onward⟩

end Moment

namespace World

variable [Scalar τ] {w w' : World τ}

theorem tick_carries (w : World τ) (delta : τ) : ∃ created, w.Carries created (w.tick delta).world := by
  obtain ⟨last, inside, world, _⟩ := Moment.tick_passes w delta
  have opened : w.Carries [] (Moment.begin w delta).world := by
    rw [Moment.begin_world]
    exact .same rfl rfl
  obtain ⟨created, carries⟩ := inside.carries
  exact ⟨_, world ▸ opened.trans carries⟩

/-- All instances of a run have been created since it began, with the ids from one on. -/
theorem Called.carries (called : w.Called w') (before : ∃ created, w.reset.Carries created w) :
    ∃ created, w'.reset.Carries created w' := by
  have extended {created : List (Instance τ)} (carries : w.Carries created w') :
      ∃ created, w'.reset.Carries created w' := by
    obtain ⟨earlier, since⟩ := before
    have both := since.trans carries
    exact ⟨_, both.ids, both.lastId, both.persist⟩
  cases called with
  | aside _ _ => exact extended (.same rfl rfl)
  | stopped => exact extended (stop_carries w)
  | reset | refused => exact ⟨[], rfl, rfl, nofun⟩
  | @entered project program room p _ entering _ =>
    -- a new run begins without instances, so those of the room are the first ones
    subst entering
    obtain ⟨created, creates⟩ := enterRoom_creates (Game.loaded w project program) room
    exact ⟨created, creates.ids, creates.lastId, creates.carries.persist⟩
  | @barred project program room p _ entering _ =>
    subst entering
    obtain ⟨created, creates⟩ := enterRoom_creates (Game.loaded w project program) room
    have stopped := creates.carries.trans (stop_carries _)
    exact ⟨_, stopped.ids, stopped.lastId, stopped.persist⟩
  | @ticked delta _ _ _ _ =>
    obtain ⟨created, carries⟩ := tick_carries w delta
    exact extended carries
  | @failed delta _ _ _ =>
    obtain ⟨created, carries⟩ := tick_carries w delta
    exact extended (carries.trans (stop_carries _))

/-- The ids of the instances are distinct and have been given out. As long as that are fewer than
the largest word, they are as good as 32-bit words. -/
structure Numbered (w : World τ) : Prop where
  distinct : (w.instances.map (·.id)).Nodup
  given : ∀ i ∈ w.instances, i.id ≤ w.lastId
  words : w.lastId < UInt32.size - 1 → (w.instances.map fun i => UInt32.ofNat i.id).Nodup ∧
    ∀ i ∈ w.instances, UInt32.ofNat i.id ≤ UInt32.ofNat w.lastId

omit [Scalar τ] in
/-- As long as the last id fits into 32 bits, every id does, and different instances keep different ids. -/
theorem Coherent.numbered (coherent : w.Coherent) : w.Numbered := by
  have given : ∀ i ∈ w.instances, i.id ≤ w.lastId := fun i member => (coherent.instances i member).given
  have size : UInt32.size = 4294967296 := rfl
  refine ⟨coherent.ids, given, fun bound => ⟨?_, fun i member => ?_⟩⟩
  · -- below the bound a word is still the number that it was made of
    refine (List.nodup_map_iff_inj_on (List.Nodup.of_map _ coherent.ids)).mpr fun i member j member' same => ?_
    apply List.inj_on_of_nodup_map coherent.ids member member'
    have numbers := congrArg UInt32.toNat same
    have small := given i member
    have small' := given j member'
    rw [UInt32.toNat_ofNat', UInt32.toNat_ofNat'] at numbers
    omega
  · have small := given i member
    rw [UInt32.le_iff_toNat_le, UInt32.toNat_ofNat', UInt32.toNat_ofNat']
    omega

/-- A world between two calls: no instance is marked and nothing but custom events is pending, every
instance is one of an object of the program with the variables of that object, and the room is one of the
project. -/
structure Whole (w : World τ) : Prop where
  unmarked : ∀ i ∈ w.instances, i.destroyed = false
  pending : w.pending.Clear
  program : ∃ size, Program.compile w.project size = .ok w.program
  object : ∀ i ∈ w.instances, ∃ o, w.program.object? i.object = some o ∧
    i.locals.Like (.ofDeclarations o.declarations)
  room : ∃ r, w.room = some r ∧ (w.project.room? r.id).isSome = true

/-- The instances that a step of a run creates take the ids that follow the last one given out. -/
theorem Becomes.carries (becomes : w.Becomes w') : ∃ created, w.Carries created w' := by
  cases becomes with
  | aside _ _ | opened _ => exact ⟨[], .same rfl rfl⟩
  | stopped => exact ⟨[], stop_carries w⟩
  | moved _ moved same => exact same ▸ moved.carries

end World

/-- What is created between two instants of a run is created step by step, so its ids follow one another. -/
theorem Instant.Later.carries [Scalar τ] {p q : Instant τ} (later : Later p q) (coherent : p.Coherent) :
    ∃ created, p.world.Carries created q.world := by
  apply later.keeps (P := fun w => ∃ created, p.world.Carries created w) coherent
  · exact ⟨[], .same rfl rfl⟩
  · rintro w w' becomes ⟨before, carries⟩
    obtain ⟨now, onward⟩ := becomes.carries
    exact ⟨_, carries.trans onward⟩

namespace Game

/-- Ids are given out once, and between two calls a live run is whole. Whatever the host has called, the
instances that were created since the last start took the ids from one on, and every instance is one of them.
From then on, at every instant of the run, the ids are distinct and have been given out; and between any two
of its instants, whether or not the room has been changed, every instance was there before or has been created
since, with an id that had not been given out. -/
theorem ids_given_once (settings : Settings) (calls : List (HostCall Float)) :
    let g : Game Float := (new settings).after calls
    (∃ created, g.world.reset.Carries created g.world) ∧
    (g.state.isLive = true → g.world.Whole) ∧
    ∀ p q, Instant.Later (.between g) p → Instant.Later p q →
      p.world.Numbered ∧ ∃ created, p.world.Carries created q.world := by
  intro g
  have coherent : g.world.Coherent := after_coherent settings calls
  have declared : g.world.Declared := after_declared settings calls
  have settled : g.world.Settled := after_settled settings calls
  refine ⟨?_, fun live => ?_, fun p q later onward => ?_⟩
  -- a call goes on with the run, or begins a new one that has created nothing before
  · apply after_called (Q := fun w => ∃ created, w.reset.Carries created w)
    · exact ⟨[], rfl, rfl, nofun⟩
    · exact fun _ _ called before => called.carries before
  · constructor
    · exact after_intact settings calls live
    · exact settled.pending live
    · exact coherent.compiled
    · intro i member
      obtain ⟨o, found⟩ := Option.isSome_iff_exists.mp (coherent.instances i member).object
      exact ⟨o, found, declared.locals i member o found⟩
    · obtain ⟨r, entered⟩ := Option.isSome_iff_exists.mp (settled.room live)
      exact ⟨r, entered, declared.room r entered⟩
  · have within : p.Coherent := later.coherent coherent
    exact ⟨within.at_world.numbered, onward.carries within⟩

/-- The hall has cat 1. When it leaves for the attic it is gone, and the cat of the attic gets another id. -/
theorem ids_given_once_leaving :
    let g : Game Float := (new .default).after [.start (leaving .none [⟨"corner", "cat", 5, 5, none⟩]) "hall"]
    let swapped := (g.tick 16).1
    g.state.isLive = true ∧ g.world.Whole ∧ g.world.instances.map (·.id) = [1] ∧
      Instant.Later (.between g) (.between swapped) ∧ swapped.world.instances.map (·.id) = [2] ∧
      g.world.Numbered ∧ ∃ created, g.world.Carries created swapped.world := by
  intro g swapped
  have live : g.state.isLive = true := by decide +kernel
  have plays : g.Plays 16 := by decide +kernel
  obtain ⟨_, whole, run⟩ :=
    ids_given_once .default [.start (leaving .none [⟨"corner", "cat", 5, 5, none⟩]) "hall"]
  have later : Instant.Later (.between g) (.between swapped) := Instant.later_tick plays
  obtain ⟨numbered, carried⟩ := run (.between g) (.between swapped) .refl later
  refine ⟨live, whole live, ?_, later, ?_, numbered, carried⟩
  · decide +kernel
  · decide +kernel

end Game

end Gameplay
