import Gameplay.Proofs.Suspension

/-!
# Declarations

The variables of a world are those that its project declares, and the room that is played, asked for or
being gone to is one of its project.

## Main result

`after_declared`: this holds in whatever state a host brings about, and at every point inside a tick
(`steps_declared`).
-/

namespace Gameplay

/-- A world with the variables that its project and its objects declare, in a room of its project. -/
structure World.Declared {τ : Type} (w : World τ) : Prop where
  globals : w.globals.Like (.ofDeclarations w.project.declarations)
  locals : ∀ i ∈ w.instances, ∀ o, w.program.object? i.object = some o →
    i.locals.Like (.ofDeclarations o.declarations)
  room : ∀ r, w.room = some r → (w.project.room? r.id).isSome
  request : ∀ r, w.pending.room = some r → (w.project.room? r.room).isSome
  destination : ∀ room, w.transition.room = some room → (w.project.room? room).isSome

namespace World

variable {τ : Type} {w w' : World τ}

/-- A change to instances that keeps their objects and their variables. -/
theorem Declared.mapped (declared : w.Declared) {f : Instance τ → Instance τ}
    (instances : w'.instances = w.instances.map f)
    (same : ∀ i, (f i).object = i.object ∧ (f i).locals = i.locals) (project : w'.project = w.project)
    (program : w'.program = w.program) (globals : w'.globals = w.globals) (room : w'.room = w.room)
    (request : w'.pending.room = w.pending.room) (transition : w'.transition = w.transition) :
    w'.Declared where
  globals := by rw [globals, project]; exact declared.globals
  locals j member o found := by
    rw [instances] at member
    obtain ⟨i, present, rfl⟩ := List.mem_map.mp member
    rw [(same i).2]
    rw [(same i).1, program] at found
    exact declared.locals i present o found
  room r entered := by rw [project]; exact declared.room r (room ▸ entered)
  request r asked := by rw [project]; exact declared.request r (request ▸ asked)
  destination room gone := by rw [project]; exact declared.destination room (transition ▸ gone)

private theorem related_both {α : Type} {R S : α → α → Prop} {as bs : List α}
    (first : List.Forall₂ R as bs) (second : List.Forall₂ S as bs) :
    List.Forall₂ (fun a b => R a b ∧ S a b) as bs := by
  induction first with
  | nil => exact .nil
  | cons head _ ih =>
    cases second with
    | cons head' tail' => exact .cons ⟨head, head'⟩ (ih tail')

/-- An action keeps the variables that are declared, with their types. -/
theorem Acted.declared {v : Invocation} (acted : w.Acted v w') (coherent : w.Coherent)
    (declared : w.Declared) : w'.Declared where
  globals := by
    rw [acted.project]
    exact acted.globals.trans declared.globals
  locals j member o found := by
    have both := related_both acted.instances (acted.locals coherent.ids)
    obtain ⟨i, present, change, alike⟩ := related_mem both member
    rw [acted.program, change.object] at found
    exact alike.trans (declared.locals i present o found)
  -- no action enters a room; it can only ask for one that is declared
  room r entered := by
    rw [acted.project]
    exact declared.room r (acted.room ▸ entered)
  request r asked := by
    rw [acted.project]
    rcases acted.request with same | ⟨_, r', asked', known⟩
    · exact declared.request r (same ▸ asked)
    · rw [asked'] at asked
      cases asked
      exact known
  destination room gone := by
    rw [acted.project]
    exact declared.destination room (acted.transition ▸ gone)

theorem spawn_declared (declared : w.Declared) (object : Nat) (position : Vec Float32) (origin : Origin) :
    (w.spawn object position origin).Declared := by
  unfold spawn
  split
  · exact declared
  next o found =>
    refine ⟨declared.globals, fun i member o' found' => ?_, declared.room, declared.request,
      declared.destination⟩
    rcases List.mem_append.mp member with old | new
    · exact declared.locals i old o' found'
    · cases List.mem_singleton.mp new
      have same : o = o' := Option.some.inj (found.symm.trans found')
      exact same ▸ .refl _

theorem spawnPlaced_declared (declared : w.Declared) (placed : List (Placement × Nat)) :
    (w.spawnPlaced placed).Declared := by
  unfold spawnPlaced
  induction placed generalizing w with
  | nil => exact declared
  | cons first rest ih => exact ih (spawn_declared declared ..)

theorem room?_id {p : Project} {id : String} {room : RoomDefinition} (found : p.room? id = some room) :
    room.id = id := by
  simpa using List.find?_some found

theorem enterRoom_declared (declared : w.Declared) (id : String) : (w.enterRoom id).world.Declared := by
  unfold enterRoom
  split
  · exact declared
  next room found =>
    split
    · exact declared
    · have known : (w.project.room? room.id).isSome := by rw [room?_id found, found]; rfl
      have entered : World.Declared { w with room := some ⟨room.id, ⟨room.width, room.height⟩⟩ } :=
        ⟨declared.globals, declared.locals, fun r same => by cases same; exact known,
          declared.request, declared.destination⟩
      exact spawnPlaced_declared entered _

theorem changeRoom_declared (declared : w.Declared) (id : String) : (w.changeRoom id).world.Declared := by
  have left : w.leaveRoom.Declared :=
    ⟨declared.globals, nofun, declared.room, nofun, declared.destination⟩
  exact enterRoom_declared left id

theorem commit_declared (declared : w.Declared) : w.commit.Declared := by
  unfold commit
  dsimp only
  induction w.pending.spawns with
  | nil =>
    exact ⟨declared.globals, fun i member => declared.locals i (List.mem_filter.mp member).1,
      declared.room, declared.request, declared.destination⟩
  | cons s spawns ih => exact spawn_declared ih ..

variable [Scalar τ]

/-- What a transition hands back is the room that it goes to. -/
theorem advance_arrived (t : Transition τ) (elapsed : τ) :
    (∀ room, (t.advance elapsed).1.room = some room → t.room = some room) ∧
      ∀ room, (t.advance elapsed).2 = some room → t.room = some room := by
  unfold Transition.advance
  split
  · dsimp only
    split
    · exact ⟨fun _ same => same, nofun⟩
    · exact ⟨nofun, fun _ same => same⟩
  · exact ⟨fun _ same => same, nofun⟩

theorem stepTransition_declared (declared : w.Declared) : w.stepTransition.world.Declared := by
  unfold stepTransition
  have arrives := advance_arrived w.transition w.clock.delta
  generalize w.transition.advance w.clock.delta = moved at arrives
  obtain ⟨transition, arrived⟩ := moved
  have still : World.Declared { w with transition := transition } :=
    ⟨declared.globals, declared.locals, declared.room, declared.request,
      fun room gone => declared.destination room (arrives.1 room gone)⟩
  cases arrived with
  | none => exact still
  | some room =>
    have changed := changeRoom_declared still room
    dsimp only [Played.andThen]
    split
    · exact ⟨changed.globals, changed.locals, changed.room, changed.request, changed.destination⟩
    · exact changed

/-- A room that is asked for is declared, and so is the goal of the transition that begins. -/
theorem followRequest_declared (declared : w.Declared) : w.followRequest.world.Declared := by
  unfold followRequest
  split
  · exact declared
  next request asked =>
    have freed : World.Declared { w with pending := { w.pending with room := none } } :=
      ⟨declared.globals, declared.locals, declared.room, nofun, declared.destination⟩
    dsimp only
    split
    · exact changeRoom_declared freed _
    · split
      · exact freed
      next transition begun =>
        -- the goal is the room that was asked for
        refine ⟨freed.globals, freed.locals, freed.room, freed.request, fun room gone => ?_⟩
        unfold Transition.start? at begun
        split at begun
        · cases begun
        · cases begun
          cases gone
          exact declared.request request asked

end World

namespace Moment

variable {τ : Type} [Scalar τ] {m next : Moment τ}

/-- A step of a walk declares nothing and leaves no room. -/
private theorem strode_declared {w w' : World τ} {v : Invocation} {frames : List Frame}
    {stride : Stride τ} (strode : World.Strode v w frames w' stride) (coherent : w.Coherent)
    (declared : w.Declared) : w'.Declared := by
  obtain ⟨w₀, status, entries, change, rfl, _⟩ := strode.acted
  have still := change.declared coherent declared
  exact ⟨still.globals, still.locals, still.room, still.request, still.destination⟩

/-- A step inside a tick keeps the declared variables. -/
theorem Moved.declared (moved : Moved m next) (coherent : m.Coherent) (declared : m.world.Declared) :
    next.world.Declared := by
  cases moved with
  | walk strode => exact strode_declared strode coherent.world declared
  | halt strode => exact strode_declared strode coherent.world declared
  | fail strode => exact strode_declared strode coherent.world declared
  | park strode =>
    have still := strode_declared strode coherent.world declared
    exact still.mapped rfl (fun i => by split <;> exact ⟨rfl, rfl⟩) rfl rfl rfl rfl rfl rfl
  | create => exact declared.mapped rfl (fun i => by split <;> exact ⟨rfl, rfl⟩) rfl rfl rfl rfl rfl rfl
  | step taken =>
    rcases World.takeDue_cases taken with ⟨_, rfl, _⟩ | ⟨_, _, _, rfl⟩
    · exact declared
    · exact declared.mapped rfl (fun i => by split <;> exact ⟨rfl, rfl⟩) rfl rfl rfl rfl rfl rfl
  | stepped => exact declared.mapped rfl (fun i => by split <;> exact ⟨rfl, rfl⟩) rfl rfl rfl rfl rfl rfl
  | handle _ _ taken =>
    subst taken
    exact ⟨declared.globals, declared.locals, declared.room, declared.request, declared.destination⟩
  | commit => exact World.commit_declared declared
  | transition _ => exact World.stepTransition_declared declared
  | transitionFailed _ => exact World.stepTransition_declared declared
  | request _ => exact World.followRequest_declared declared
  | requestFailed _ => exact World.followRequest_declared declared
  -- the other steps touch neither variables nor rooms
  | finish _ | pass _ | drop _ | created | collided | handled _ => exact declared
  | start _ _ | resume _ _ | close =>
    exact ⟨declared.globals, declared.locals, declared.room, declared.request, declared.destination⟩

theorem steps_declared {w : World τ} (world : w.Coherent) (declared : w.Declared) {delta : τ}
    {m : Moment τ} (inside : Steps (begin w delta) m) : m.world.Declared := by
  have first : (begin w delta).world.Declared := by
    rw [begin_world]
    exact ⟨declared.globals, declared.locals, declared.room, declared.request, declared.destination⟩
  exact inside.keeps (P := fun m => m.world.Declared) (begin_coherent world delta) first Moved.declared

end Moment

namespace Game

variable {τ : Type} [Scalar τ]

/-- Before any run nothing is to be declared, and every part of a call keeps what is. -/
theorem kept_declared : Kept fun w : World τ => w.Coherent ∧ w.Declared where
  initial settings random := by
    refine ⟨World.initial_coherent settings random, rfl, nofun, nofun, nofun, nofun⟩
  enter w project program room compiled := by
    refine ⟨kept_coherent.enter w project program room compiled, ?_⟩
    have clean : (loaded w project program).Declared := ⟨rfl, nofun, nofun, nofun, nofun⟩
    exact World.enterRoom_declared clean room
  run w both := by
    obtain ⟨coherent, declared⟩ := both
    exact ⟨kept_coherent.run w coherent, declared.globals, declared.locals, declared.room,
      declared.request, declared.destination⟩
  tick w delta live both := by
    obtain ⟨coherent, declared⟩ := both
    obtain ⟨last, inside, same, _⟩ := Moment.tick_passes w delta
    exact ⟨kept_coherent.tick w delta live coherent, same ▸ Moment.steps_declared coherent declared inside⟩
  -- a stop takes the waits off the instances and leaves them their variables
  stop w both := by
    obtain ⟨coherent, declared⟩ := both
    exact ⟨kept_coherent.stop w coherent, declared.globals, fun i member o found => by
      obtain ⟨j, present, rfl⟩ := List.mem_map.mp member
      exact declared.locals j present o found, declared.room, nofun, nofun⟩
  keys w keys both := by
    obtain ⟨coherent, declared⟩ := both
    exact ⟨kept_coherent.keys w keys coherent, declared.globals, declared.locals, declared.room,
      declared.request, declared.destination⟩
  sounds w both := by
    obtain ⟨coherent, declared⟩ := both
    exact ⟨kept_coherent.sounds w coherent, declared.globals, declared.locals, declared.room,
      declared.request, declared.destination⟩

/-- Whatever the host calls, variables and rooms are those that the project declares. -/
theorem after_declared (settings : Settings) (calls : List (HostCall τ)) :
    ((new settings : Game τ).after calls).world.Declared :=
  (after_world kept_declared settings calls).2

end Game

end Gameplay
