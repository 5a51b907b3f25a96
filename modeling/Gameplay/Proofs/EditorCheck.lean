import Gameplay.Blocking
import Gameplay.Proofs.Calls
import Gameplay.Proofs.Encounters
import Gameplay.Proofs.RoomEntry

/-!
# The editor's check

An editor asks, of a document, whether a placement would be blocked. A running game lists the pairs of
instances that collide. Both look objects up, give them a size and place them on their own.

## Main result

`blocks_iff_collides`: a placement is blocked iff it collides in the game that has been started with it.

## Proof strategy

A room that is entered has the instances that its placements create (`Populates`), with the colliders of their
objects (`Instance.Shaped`). So their bodies are those which the check makes up, but for the id of the
candidate (`Populates.bodies`), and collisions neither look at ids nor at the order of the two sides.
-/

namespace Gameplay

/-! ### documents with other placements -/

/-- Changes the placements of the first room of an id. -/
def reviseIn (roomId : String) (change : List Placement → List Placement) :
    List RoomDefinition → List RoomDefinition
  | [] => []
  | room :: rooms =>
    if room.id == roomId then { room with instances := change room.instances } :: rooms
    else room :: reviseIn roomId change rooms

/-- The project with other placements in a room. -/
def Project.revise (p : Project) (roomId : String) (change : List Placement → List Placement) : Project :=
  { p with rooms := reviseIn roomId change p.rooms }

theorem find?_reviseIn (roomId : String) (change : List Placement → List Placement)
    (rooms : List RoomDefinition) : (reviseIn roomId change rooms).find? (·.id == roomId) =
      (rooms.find? (·.id == roomId)).map fun room => { room with instances := change room.instances } := by
  induction rooms with
  | nil => rfl
  | cons room rooms ih =>
    simp only [reviseIn]
    split
    next found => simp [found]
    next other => simp [other, ih]

theorem Project.room?_revise (p : Project) (roomId : String) (change : List Placement → List Placement) :
    (p.revise roomId change).room? roomId =
      (p.room? roomId).map fun room => { room with instances := change room.instances } :=
  find?_reviseIn roomId change p.rooms

/-- The project with another placement at the end of a room. -/
def Project.place (p : Project) (roomId : String) (placement : Placement) : Project :=
  p.revise roomId (· ++ [placement])

namespace Program

private theorem compileEvents_rooms (p : Project) (rooms : List RoomDefinition) (a : Arena)
    (events : List Event) : compileEvents { p with rooms := rooms } a events = compileEvents p a events := by
  induction events generalizing a with
  | nil => rfl
  | cons e es ih =>
    simp only [compileEvents, ih]
    rfl

private theorem compileObjects_rooms (p : Project) (rooms : List RoomDefinition) (default : Vec Float32)
    (a : Arena) (objects : List ObjectDefinition) :
    compileObjects { p with rooms := rooms } default a objects = compileObjects p default a objects := by
  induction objects generalizing a with
  | nil => rfl
  | cons o os ih =>
    simp only [compileObjects, compileEvents_rooms, ih]
    rfl

/-- Rooms play no part in the compilation of a project. -/
theorem compile_rooms (p : Project) (rooms : List RoomDefinition) (default : Vec Float32) :
    compile { p with rooms := rooms } default = compile p default := by
  simp only [compile, compileObjects_rooms]

theorem compile_place (p : Project) (roomId : String) (placement : Placement) (default : Vec Float32) :
    compile (p.place roomId placement) default = compile p default :=
  compile_rooms p _ default

end Program

/-! ### bodies -/

theorem Box.overlaps_comm {α : Type} [Scalar α] (a b : Box α) : a.overlaps b = b.overlaps a := by
  simp only [overlaps]
  ac_rfl

theorem Block.collides_comm {α : Type} [Scalar α] (a b : Block α) : a.collides b = b.collides a := by
  have eligible : a.eligible b = b.eligible a := Bool.or_comm _ _
  rw [collides, collides, eligible, Box.overlaps_comm]

/-- A body without an excluded one is blocked by every body of another id that it collides with. -/
theorem Body.blocked_iff {α : Type} [Scalar α] {candidate : Body α} {others : List (Body α)}
    (apart : ∀ other ∈ others, other.id ≠ candidate.id) :
    candidate.blocked others none = true ↔
      ∃ other ∈ others, candidate.block.collides other.block = true := by
  simp only [blocked, List.any_eq_true, Bool.and_eq_true, bne_iff_ne]
  constructor
  · rintro ⟨other, listed, _, collide⟩
    exact ⟨other, listed, collide⟩
  · rintro ⟨other, listed, collide⟩
    exact ⟨other, listed, ⟨apart other listed, nofun⟩, collide⟩

variable {τ : Type}

/-- A live instance is a side of a pair that collides iff it collides with another one that lives. -/
theorem World.paired_iff {w : World τ} (unique : (w.instances.map (·.id)).Nodup) {i : Instance τ}
    (live : i ∈ w.live) :
    (∃ pair ∈ collidingPairs (w.live.map bodyOf), w.live[pair.1]? = some i ∨ w.live[pair.2]? = some i) ↔
      ∃ j ∈ w.live, j.id ≠ i.id ∧ (bodyOf i).block.collides (bodyOf j).block = true := by
  constructor
  · rintro ⟨⟨m, n⟩, pair, side⟩
    obtain ⟨_, _, foundA, foundB, apart, collide⟩ := mem_collidingPairs.mp pair
    simp only [List.getElem?_map, Option.map_eq_some_iff] at foundA foundB
    obtain ⟨a, foundA, rfl⟩ := foundA
    obtain ⟨b, foundB, rfl⟩ := foundB
    have distinct : a.id ≠ b.id := live_apart unique foundA foundB apart
    -- whichever side the instance is, it collides with the other one
    rcases side with first | second
    · cases foundA.symm.trans first
      exact ⟨b, List.mem_of_getElem? foundB, distinct.symm, collide⟩
    · cases foundB.symm.trans second
      exact ⟨a, List.mem_of_getElem? foundA, distinct, (Block.collides_comm ..).trans collide⟩
  · rintro ⟨j, liveJ, other, collide⟩
    obtain ⟨m, foundI⟩ := List.mem_iff_getElem?.mp live
    obtain ⟨n, foundJ⟩ := List.mem_iff_getElem?.mp liveJ
    -- instances with two ids stand at two positions
    have apart : m ≠ n := by
      rintro rfl
      rw [foundI] at foundJ
      cases foundJ
      exact other rfl
    refine ⟨(m, n), mem_collidingPairs.mpr ⟨bodyOf i, bodyOf j, ?_, ?_, apart, collide⟩, .inl foundI⟩
    · rw [List.getElem?_map, foundI, Option.map_some]
    · rw [List.getElem?_map, foundJ, Option.map_some]

/-- An instance with the collider of its object. -/
def Instance.Shaped (p : Program) (i : Instance τ) : Prop :=
  ∃ o, p.object? i.object = some o ∧ i.collider = .ofSize o.size o.solid

theorem World.enterRoom_shaped {w : World τ} (empty : w.instances = []) (id : String) :
    ∀ i ∈ (w.enterRoom id).world.instances, i.Shaped w.program := by
  intro i member
  obtain ⟨⟨o, found, collider, _⟩, _, _⟩ := enterRoom_spawned empty id i member
  exact ⟨o, found, collider⟩

/-- The instances of placements have the ids that follow the last one given out. -/
theorem Populates.ids {p : Program} {lastId : Nat} {placements : List Placement} {is : List (Instance τ)}
    (populates : Populates p lastId placements is) :
    is.map (·.id) = List.range' (lastId + 1) placements.length := by
  induction populates with
  | nil => rfl
  | cons creates _ ih => rw [List.map_cons, creates.id, ih, List.length_cons, List.range'_succ]

/-- The last placement creates the last instance. -/
theorem Populates.concat {p : Program} {lastId : Nat} {placements : List Placement} {placement : Placement}
    {is : List (Instance τ)} (populates : Populates p lastId (placements ++ [placement]) is) :
    ∃ js i, is = js ++ [i] ∧ Populates p lastId placements js ∧
      placement.Creates p (lastId + placements.length + 1) i := by
  induction placements generalizing lastId is with
  | nil =>
    cases populates with
    | cons creates rest =>
      cases rest
      exact ⟨[], _, rfl, .nil, creates⟩
  | cons first placements ih =>
    cases populates with
    | @cons _ _ _ j _ created rest =>
      obtain ⟨js, i, rfl, others, creates⟩ := ih rest
      refine ⟨j :: js, i, rfl, .cons created others, ?_⟩
      -- the first instance takes one id, which those behind it count on from
      have number : lastId + (first :: placements).length + 1 = lastId + 1 + placements.length + 1 := by
        rw [List.length_cons]
        omega
      exact number ▸ creates

/-- The body that the check makes up is that of the instance, but for the id. -/
theorem Placement.Creates.body {p : Program} {placement : Placement} {id : Nat} {i : Instance τ}
    (creates : placement.Creates p id i) (shaped : i.Shaped p) (number : Nat) :
    p.placementBody number placement = .ok { World.bodyOf i with id := number } := by
  obtain ⟨o, found, collider⟩ := shaped
  simp only [Program.placementBody, creates.object, Option.bind_some, found, World.bodyOf, creates.position,
    collider]

/-- The bodies of the instances are those of the placements, but for their ids. -/
theorem Populates.bodies {p : Program} {lastId : Nat} {placements : List Placement} {is : List (Instance τ)}
    (populates : Populates p lastId placements is) (shaped : ∀ i ∈ is, i.Shaped p) :
    p.placementBodies (lastId + 1) placements = .ok (is.map World.bodyOf) := by
  induction populates with
  | nil => rfl
  | cons creates _ ih =>
    have first := creates.body (shaped _ List.mem_cons_self)
    have rest := ih fun i listed => shaped i (List.mem_cons_of_mem _ listed)
    rw [← creates.id] at *
    simp only [Program.placementBodies, first, rest, bind, Except.bind, List.map_cons]
    rfl

namespace Game

variable [Scalar τ]

/-- A run that starts in a room has the instances of its placements, with the colliders of their objects. -/
theorem start_populates {g : Game τ} {project : Project} {roomId : String}
    (succeeds : (g.start project roomId).2 = none) :
    ∃ program room, Program.compile project g.world.settings.spriteSize = .ok program ∧
      project.room? roomId = some room ∧ (g.start project roomId).1.world.program = program ∧
      Populates program 0 room.instances (g.start project roomId).1.world.instances ∧
      ∀ i ∈ (g.start project roomId).1.world.instances, i.Shaped program := by
  obtain ⟨program, w, compiled, entered, world⟩ := start_enters succeeds
  have finished : ((loaded g.world project program).enterRoom roomId).ending = .finished := by rw [entered]; rfl
  obtain ⟨room, declared⟩ := World.enterRoom_known finished
  have shaped := World.enterRoom_shaped (w := loaded g.world project program) rfl roomId
  refine ⟨program, room, compiled, declared, ?_⟩
  -- every object of a placement was found, as the start would have failed otherwise
  rcases (loaded g.world project program).enterRoom_cases declared with
    ⟨is, populates, same⟩ | ⟨_, _, _, same⟩
  · rw [same] at entered shaped
    cases entered
    rw [world]
    exact ⟨rfl, populates, shaped⟩
  · rw [same] at entered
    cases entered

/-- Add a candidate to a room of any project, and start any game in that room. If the start succeeds, then the
check of the candidate in the project without it succeeds as well. The candidate's instance is the one with
the id after those of the other placements, and the check is true iff this instance is a side of a pair that
collides in the game. -/
theorem blocks_iff_collides (g : Game τ) (project : Project) (roomId : String) (candidate : Placement) :
    let started := g.start (project.place roomId candidate) roomId
    let w := started.1.world
    started.2 = none → ∃ room blocked i, project.room? roomId = some room ∧
      project.blocks roomId candidate none g.world.settings.spriteSize = .ok blocked ∧
      i ∈ w.live ∧ candidate.Creates w.program (room.instances.length + 1) i ∧
      (blocked = true ↔ ∃ pair ∈ collidingPairs (w.live.map World.bodyOf),
        w.live[pair.1]? = some i ∨ w.live[pair.2]? = some i) := by
  intro started w succeeds
  obtain ⟨program, placed, compiled, declared, same, populates, shaped⟩ := start_populates succeeds
  rw [Program.compile_place] at compiled
  rw [Project.place, Project.room?_revise] at declared
  obtain ⟨room, known, rfl⟩ := Option.map_eq_some_iff.mp declared
  -- the candidate's instance comes last, and the others are those of the room without it
  obtain ⟨js, i, instances, others, creates⟩ := populates.concat
  rw [Nat.zero_add] at creates
  have unique : (w.instances.map (·.id)).Nodup := by
    rw [populates.ids]
    exact List.nodup_range'
  have live : ∀ j, j ∈ w.live ↔ j ∈ js ∨ j = i := by
    intro j
    have member : j ∈ w.instances ↔ j ∈ js ∨ j = i := by simp [w, started, instances]
    rw [World.mem_live, member]
    exact and_iff_left_of_imp fun listed => populates.alive j (member.mpr listed)
  have bodies := others.bodies fun j listed => shaped j (instances ▸ List.mem_append_left _ listed)
  have body := creates.body (shaped i (instances ▸ List.mem_append_right _ (List.mem_singleton_self i))) 0
  -- the placements have ids from one on, so neither the check nor the game leaves one of them out
  have numbered : ∀ j ∈ js, j.id ≠ 0 ∧ j.id ≠ i.id := by
    intro j listed
    have number : j.id ∈ List.range' (0 + 1) room.instances.length := others.ids ▸ List.mem_map_of_mem listed
    rw [List.mem_range'_1] at number
    rw [creates.id]
    omega
  refine ⟨room, ({ World.bodyOf i with id := 0 } : Body Float32).blocked (js.map World.bodyOf) none, i, known,
    ?_, (live i).mpr (.inr rfl), same ▸ creates, ?_⟩
  · simp only [Project.blocks, known, compiled, bodies, body, bind, Except.bind]
    rfl
  · rw [World.paired_iff unique ((live i).mpr (.inr rfl)), Body.blocked_iff]
    · simp only [List.mem_map, exists_exists_and_eq_and]
      constructor
      · rintro ⟨j, listed, collide⟩
        exact ⟨j, (live j).mpr (.inl listed), (numbered j listed).2, collide⟩
      · rintro ⟨j, there, other, collide⟩
        have listed : j ∈ js := ((live j).mp there).resolve_right fun mine => other (congrArg _ mine)
        exact ⟨j, listed, collide⟩
    · intro other member
      obtain ⟨j, listed, rfl⟩ := List.mem_map.mp member
      exact (numbered j listed).1

/-- A wall with the size of its brick, and a coin without a size. -/
def courtyard : Project where
  version := 1
  declarations := []
  objects := [⟨"wall", "Wall", some "brick", none, some 8, true, [], []⟩,
    ⟨"coin", "Coin", none, none, none, false, [], []⟩]
  rooms := [⟨"court", "Court", 100, 100, [⟨"north", "wall", 0, 0, none⟩, ⟨"south", "wall", 0, 60, none⟩]⟩]
  sprites := [⟨"brick", "Brick", 40, 4⟩]
  sounds := []

/-- A coin on the northern wall is blocked and collides with it. Beside the wall it is not blocked, and no pair
of the game that is started with it has it on a side. -/
theorem blocks_iff_collides_courtyard :
    let g : Game Float := new .default
    let on : Placement := ⟨"new", "coin", 39, 7, none⟩
    let beside : Placement := ⟨"new", "coin", 40, 7, none⟩
    let size := g.world.settings.spriteSize
    courtyard.blocks "court" on none size = .ok true ∧
      (let w := (g.start (courtyard.place "court" on) "court").1.world
       ∃ i ∈ w.live, i.id = 3 ∧ ∃ pair ∈ collidingPairs (w.live.map World.bodyOf),
        w.live[pair.1]? = some i ∨ w.live[pair.2]? = some i) ∧
      courtyard.blocks "court" beside none size = .ok false ∧
      let w := (g.start (courtyard.place "court" beside) "court").1.world
      ∃ i ∈ w.live, i.id = 3 ∧ ¬ ∃ pair ∈ collidingPairs (w.live.map World.bodyOf),
        w.live[pair.1]? = some i ∨ w.live[pair.2]? = some i := by
  intro g on beside size
  have blocked : courtyard.blocks "court" on none size = .ok true := by decide +kernel
  have free : courtyard.blocks "court" beside none size = .ok false := by decide +kernel
  -- the check and the game look up the same room
  have declared : courtyard.room? "court" = courtyard.rooms[0]? := rfl
  refine ⟨blocked, ?_, free, ?_⟩
  · obtain ⟨room, answer, i, known, checked, live, creates, agree⟩ :=
      blocks_iff_collides g courtyard "court" on (by decide +kernel)
    cases declared.symm.trans known
    cases blocked.symm.trans checked
    exact ⟨i, live, creates.id, agree.mp rfl⟩
  · obtain ⟨room, answer, i, known, checked, live, creates, agree⟩ :=
      blocks_iff_collides g courtyard "court" beside (by decide +kernel)
    cases declared.symm.trans known
    cases free.symm.trans checked
    exact ⟨i, live, creates.id, fun collides => Bool.false_ne_true (agree.mpr collides)⟩

end Game

end Gameplay
