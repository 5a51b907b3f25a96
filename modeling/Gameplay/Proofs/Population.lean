import Gameplay.Proofs.Scoping
import Gameplay.Proofs.Typing

/-!
# The population of a room

A room is entered as a whole or not at all: the objects of all its placements are looked up before the first
instance is spawned. A change of rooms replaces the instances of the old room by those that the placements of
the new one make, and nothing of the run but the room, the instances and the effects that were pending.

## Main result

`entering_replaces_instances`: both, for any world and for the changes of rooms of a run.

## Proof strategy

`Populates` says what the placements of a room create, in their order. From it each position of the list of
placements has its instance (`Populates.getElem?`), and with `Instance.Spawned` all its components are known.
-/

namespace Gameplay

variable {τ : Type}

/-! ### declared variables -/

namespace Variables

/-- Every declared variable, and no other, has the type and the coerced initial value of its last
declaration. -/
def Initial (vars : Variables) (declarations : List Variable) : Prop :=
  ∀ id, vars.binding? id =
    (lastDeclared? declarations id).map fun d => ⟨d.id, d.type, d.initial.coerce d.type⟩

/-- Declared variables have their initial values. -/
theorem ofDeclarations_initial (declarations : List Variable) :
    (ofDeclarations declarations).Initial declarations := by
  intro id
  cases found : (ofDeclarations declarations).binding? id with
  | none =>
    cases last : lastDeclared? declarations id with
    | none => rfl
    | some d =>
      -- a variable that is declared would be found
      have mine : d.id = id := by simpa using List.find?_some last
      have member : ⟨d.id, d.type, d.initial.coerce d.type⟩ ∈ (ofDeclarations declarations).bindings :=
        mem_ofDeclarations.mpr ⟨d, mine.symm ▸ last, rfl⟩
      have other := List.find?_eq_none.mp found _ member
      simp [mine] at other
  | some b =>
    have mine : b.id = id := by simpa using List.find?_some found
    obtain ⟨d, last, rfl⟩ := mem_ofDeclarations.mp (List.mem_of_find?_eq_some found)
    rw [mine] at last
    rw [last, Option.map_some]

end Variables

/-! ### placements -/

/-- An instance is as its placement makes it: it has the size, the solidity and the initial variables of the
object that the placement names, stands still where the placement is, and nothing has happened to it. -/
structure Placement.Makes (p : Program) (placement : Placement) (id : Nat) (i : Instance τ) : Prop where
  id : i.id = id
  origin : i.origin = ⟨some placement.id, placement.layer⟩
  position : i.position = ⟨placement.x, placement.y⟩
  index : p.objectIndex? placement.objectId = some i.object
  object : ∃ o, p.object? i.object = some o ∧ o.id = placement.objectId ∧
    i.collider = ⟨o.size, .zero, o.solid⟩ ∧ i.locals.Initial o.declarations
  velocity : i.velocity = .zero
  rotation : i.rotation = 0
  waits : i.waits = []
  fresh : i.fresh = true
  destroyed : i.destroyed = false

/-- The program has an object of an id iff one of its objects has it. -/
theorem Program.objectIndex?_known {p : Program} {id : String} :
    p.objectIndex? id ≠ none ↔ ∃ o ∈ p.objects, o.id = id := by
  rw [Option.ne_none_iff_isSome, objectIndex?, lastIndex?_isSome]
  simp

theorem Placement.Creates.makes {p : Program} {placement : Placement} {id : Nat} {i : Instance τ}
    (creates : placement.Creates p id i) (spawned : i.Spawned p) : placement.Makes p id i := by
  refine ⟨creates.id, creates.origin, creates.position, creates.object, ?_, spawned.velocity,
    spawned.rotation, creates.waits, creates.fresh, creates.destroyed⟩
  obtain ⟨o, definition, collider, locals⟩ := spawned.object
  obtain ⟨o', there, same⟩ := Program.object?_of_index creates.object
  cases definition.symm.trans there
  exact ⟨o, definition, same, collider, locals ▸ Variables.ofDeclarations_initial _⟩

namespace World

/-! ### entering -/

/-- A room that can be entered: it is declared, and so is the object of each of its placements. -/
def CanEnter (w : World τ) (id : String) : Prop :=
  ∃ room, w.project.room? id = some room ∧
    ∀ placement ∈ room.instances, ∃ o ∈ w.program.objects, o.id = placement.objectId

/-- A room is entered or nothing changes. -/
theorem enterRoom_all_or_nothing (w : World τ) (id : String) :
    ((w.enterRoom id).ending = .finished ↔ w.CanEnter id) ∧
      ((w.enterRoom id).ending ≠ .finished → (w.enterRoom id).world = w) := by
  cases declared : w.project.room? id with
  | none =>
    have failed : w.enterRoom id = ⟨w, .failed (.room id)⟩ := by simp only [enterRoom, declared]
    rw [failed]
    refine ⟨⟨?_, ?_⟩, fun _ => rfl⟩
    · intro finished
      cases finished
    · rintro ⟨room, found, _⟩
      cases declared.symm.trans found
  | some room =>
    rcases w.enterRoom_cases declared with ⟨is, populates, entered⟩ | ⟨placement, listed, unknown, failed⟩
    · rw [entered]
      refine ⟨⟨fun _ => ⟨room, declared, fun placement listed => ?_⟩, fun _ => rfl⟩, fun unfinished => ?_⟩
      · -- an instance was made of the placement, so its object is known
        obtain ⟨n, there⟩ := List.mem_iff_getElem?.mp listed
        obtain ⟨i, _, creates⟩ := populates.getElem? there
        exact Program.objectIndex?_known.mp (by simp [creates.object])
      · exact absurd rfl unfinished
    · rw [failed]
      refine ⟨⟨?_, ?_⟩, fun _ => rfl⟩
      · intro finished
        cases finished
      · rintro ⟨room', found, known⟩
        cases declared.symm.trans found
        exact absurd unknown (Program.objectIndex?_known.mpr (known placement listed))

/-! ### changes of rooms -/

/-- From one world to another the room has been changed: the instances are those that the placements of the
new room make, in their order and with the ids that follow the last one given out, and no effect is pending.
All else is as it was. -/
structure Moves (w : World τ) (room : RoomDefinition) (w' : World τ) : Prop where
  only : w' =
    { w with
      room := some ⟨room.id, ⟨room.width, room.height⟩⟩
      lastId := w.lastId + room.instances.length
      instances := w'.instances
      pending := .none }
  count : w'.instances.length = room.instances.length
  each : ∀ n (placement : Placement), room.instances[n]? = some placement →
    ∃ i, w'.instances[n]? = some i ∧ placement.Makes w.program (w.lastId + 1 + n) i

theorem changeRoom_moves {w : World τ} {id : String} (finished : (w.changeRoom id).ending = .finished) :
    ∃ room, w.project.room? id = some room ∧ w.Moves room (w.changeRoom id).world := by
  obtain ⟨room, declared⟩ : ∃ room, w.project.room? id = some room :=
    enterRoom_known (w := w.leaveRoom) finished
  refine ⟨room, declared, ?_⟩
  have spawned : ∀ i ∈ (w.changeRoom id).world.instances, i.Spawned w.program :=
    enterRoom_spawned (w := w.leaveRoom) rfl id
  rcases w.changeRoom_cases declared with ⟨is, populates, entered⟩ | ⟨_, _, _, failed⟩
  · rw [entered] at spawned ⊢
    refine ⟨rfl, populates.length, fun n placement listed => ?_⟩
    obtain ⟨i, there, creates⟩ := populates.getElem? listed
    exact ⟨i, there, creates.makes (spawned i (List.mem_of_getElem? there))⟩
  · rw [failed] at finished
    cases finished

/-- Every instance of a room that has just been entered is the one of a placement. -/
theorem Moves.placed {w w' : World τ} {room : RoomDefinition} (moves : w.Moves room w') {i : Instance τ}
    (member : i ∈ w'.instances) : ∃ n, i.id = w.lastId + 1 + n ∧ n < room.instances.length := by
  obtain ⟨n, there⟩ := List.mem_iff_getElem?.mp member
  obtain ⟨bound, _⟩ := List.getElem?_eq_some_iff.mp there
  rw [moves.count] at bound
  obtain ⟨j, same, makes⟩ := moves.each n _ (List.getElem?_eq_getElem bound)
  cases there.symm.trans same
  exact ⟨n, makes.id, bound⟩

/-- A world of a run before a change of rooms and the one after it have no instance in common. As long as the
ids that have been given out are fewer than the largest word, they fit into 32 bits. -/
structure Parts (w w' : World τ) : Prop where
  ids : ∀ i ∈ w.instances, ∀ j ∈ w'.instances, i.id ≠ j.id
  words : w'.lastId < UInt32.size - 1 →
    ∀ i ∈ w.instances ++ w'.instances, (UInt32.ofNat i.id).toNat = i.id

theorem Moves.parts {w w' : World τ} {room : RoomDefinition} (moves : w.Moves room w')
    (given : ∀ i ∈ w.instances, i.id ≤ w.lastId) : w.Parts w' := by
  have lastId : w'.lastId = w.lastId + room.instances.length := by rw [moves.only]
  refine ⟨fun i before j after => ?_, fun bound i member => ?_⟩
  · obtain ⟨n, number, _⟩ := moves.placed after
    have earlier := given i before
    omega
  · have size : UInt32.size = 4294967296 := rfl
    have small : i.id ≤ w'.lastId := by
      rcases List.mem_append.mp member with before | after
      · have earlier := given i before
        omega
      · obtain ⟨n, number, listed⟩ := moves.placed after
        omega
    rw [UInt32.toNat_ofNat']
    omega

end World

namespace Game

variable [Scalar τ]

/-- Entering a room is all or nothing, and a change of rooms replaces the instances. A room is entered iff it
is declared and every placement of it names a declared object, and otherwise nothing changes. At any instant
of a run, with whatever transition and effects: if the room is changed then it is one of the project, its
placements have made the instances, in their order and with the ids that follow, no instance of before is
left, no effect is pending, and all else is as it was. -/
theorem entering_replaces_instances (settings : Settings) (calls : List (HostCall τ)) :
    (∀ (w : World τ) (id : String), ((w.enterRoom id).ending = .finished ↔ w.CanEnter id) ∧
      ((w.enterRoom id).ending ≠ .finished → (w.enterRoom id).world = w)) ∧
    ∀ p, Instant.Later (.between ((new settings).after calls)) p →
      ∀ (transition : Transition τ) (pending : Pending) (id : String),
        let w := { p.world with transition := transition, pending := pending }
        let changed := w.changeRoom id
        changed.ending = .finished →
          ∃ room, w.project.room? id = some room ∧ w.Moves room changed.world ∧ w.Parts changed.world := by
  refine ⟨World.enterRoom_all_or_nothing, fun p later transition pending id => ?_⟩
  intro w changed finished
  obtain ⟨room, declared, moves⟩ := World.changeRoom_moves finished
  -- the ids of a run have been given out, and nothing of that is about transitions or effects
  have coherent : p.Coherent := later.coherent (after_coherent settings calls)
  exact ⟨room, declared, moves, moves.parts coherent.at_world.numbered.given⟩

/-- A cat that is in the hall with id 1 is replaced by the one that the attic places, with id 2. -/
theorem entering_replaces_instances_attic :
    let g : Game Float := (new .default).after [.start (leaving .none [⟨"corner", "cat", 5, 5, none⟩]) "hall"]
    let changed := g.world.changeRoom "attic"
    g.world.instances.map (·.id) = [1] ∧ Instant.Later (.between g) (.between g) ∧
      changed.ending = .finished ∧ changed.world.instances.map (·.id) = [2] ∧
      ∃ room, g.world.project.room? "attic" = some room ∧ g.world.Moves room changed.world ∧
        g.world.Parts changed.world := by
  intro g changed
  have finished : changed.ending = .finished := by decide +kernel
  let calls : List (HostCall Float) := [.start (leaving .none [⟨"corner", "cat", 5, 5, none⟩]) "hall"]
  obtain ⟨_, replaces⟩ := entering_replaces_instances .default calls
  have moves := replaces (.between g) .refl g.world.transition g.world.pending "attic" finished
  refine ⟨?_, .refl, finished, ?_, moves⟩
  · decide +kernel
  · decide +kernel

end Game

end Gameplay
