import Gameplay.Proofs.RoomEffects

/-!
# Entering a room

A room that is entered creates an instance for each of its placements, in order, with the ids that follow
the last one given out. A change of rooms clears the old room first, whether or not the new one can be
entered.

## Main result

`changeRoom_cases`: a change to a declared room either populates it, or leaves no instance at all.
-/

namespace Gameplay

variable {τ : Type}

/-- An instance as a placement creates it. -/
structure Placement.Creates (p : Program) (placement : Placement) (id : Nat) (i : Instance τ) : Prop where
  id : i.id = id
  object : p.objectIndex? placement.objectId = some i.object
  origin : i.origin = ⟨some placement.id, placement.layer⟩
  position : i.position = ⟨placement.x, placement.y⟩
  waits : i.waits = []
  fresh : i.fresh = true
  destroyed : i.destroyed = false

/-- An instance as it is spawned: it has the size and the variables of its object and does not move. -/
structure Instance.Spawned (p : Program) (i : Instance τ) : Prop where
  object : ∃ o, p.object? i.object = some o ∧ i.collider = .ofSize o.size o.solid ∧
    i.locals = .ofDeclarations o.declarations
  velocity : i.velocity = .zero
  rotation : i.rotation = 0

/-- The instances that placements create, in their order, with the ids after the last one given out. -/
inductive Populates (p : Program) : Nat → List Placement → List (Instance τ) → Prop
  | nil {lastId : Nat} : Populates p lastId [] []
  | cons {lastId : Nat} {placement : Placement} {rest : List Placement} {i : Instance τ}
      {is : List (Instance τ)} : placement.Creates p (lastId + 1) i → Populates p (lastId + 1) rest is →
      Populates p lastId (placement :: rest) (i :: is)

theorem Populates.alive {p : Program} {lastId : Nat} {placements : List Placement} {is : List (Instance τ)}
    (populates : Populates p lastId placements is) : ∀ i ∈ is, i.destroyed = false := by
  induction populates with
  | nil => exact nofun
  | cons creates _ ih => exact List.forall_mem_cons.mpr ⟨creates.destroyed, ih⟩

theorem Populates.length {p : Program} {lastId : Nat} {placements : List Placement} {is : List (Instance τ)}
    (populates : Populates p lastId placements is) : is.length = placements.length := by
  induction populates with
  | nil => rfl
  | cons _ _ ih => rw [List.length_cons, List.length_cons, ih]

/-- The placement at a position creates the instance at that position. -/
theorem Populates.getElem? {p : Program} {lastId : Nat} {placements : List Placement}
    {is : List (Instance τ)} (populates : Populates p lastId placements is) {n : Nat} {placement : Placement}
    (listed : placements[n]? = some placement) :
    ∃ i, is[n]? = some i ∧ placement.Creates p (lastId + 1 + n) i := by
  induction populates generalizing n with
  | nil => cases listed
  | @cons lastId _ _ i _ creates _ ih =>
    cases n with
    | zero =>
      cases listed
      exact ⟨i, rfl, creates⟩
    | succ n =>
      obtain ⟨j, found, later⟩ := ih listed
      have number : lastId + 1 + 1 + n = lastId + 1 + (n + 1) := by omega
      exact ⟨j, found, number ▸ later⟩

/-- What is found by its last index is there and satisfies the test. -/
theorem lastIndex?_satisfies {α : Type} {p : α → Bool} {as : List α} {n : Nat}
    (found : lastIndex? p as = some n) : ∃ a, as[n]? = some a ∧ p a = true := by
  induction as generalizing n with
  | nil => cases found
  | cons a as ih =>
    simp only [lastIndex?] at found
    split at found
    next m later =>
      cases found
      exact ih later
    · split at found
      next here =>
        cases found
        exact ⟨a, rfl, here⟩
      · cases found

theorem Program.object?_of_index {p : Program} {id : String} {object : Nat}
    (found : p.objectIndex? id = some object) : ∃ o, p.object? object = some o ∧ o.id = id := by
  obtain ⟨o, there, same⟩ := lastIndex?_satisfies found
  exact ⟨o, there, eq_of_beq same⟩

namespace World

/-! ### spawns -/

/-- A spawn changes the instances and the last id, and nothing else. -/
theorem spawn_only (w : World τ) (object : Nat) (position : Vec Float32) (origin : Origin) :
    ∃ lastId instances,
      w.spawn object position origin = { w with lastId := lastId, instances := instances } := by
  unfold spawn
  split
  · exact ⟨w.lastId, w.instances, rfl⟩
  · exact ⟨_, _, rfl⟩

theorem spawnPlaced_only (w : World τ) (placed : List (Placement × Nat)) :
    ∃ lastId instances, w.spawnPlaced placed = { w with lastId := lastId, instances := instances } := by
  unfold spawnPlaced
  induction placed generalizing w with
  | nil => exact ⟨w.lastId, w.instances, rfl⟩
  | cons first rest ih =>
    rw [List.foldl_cons]
    obtain ⟨_, _, spawned⟩ := spawn_only w first.2 ⟨first.1.x, first.1.y⟩ ⟨some first.1.id, first.1.layer⟩
    obtain ⟨lastId, instances, same⟩ := ih (w.spawn first.2 ⟨first.1.x, first.1.y⟩
      ⟨some first.1.id, first.1.layer⟩)
    refine ⟨lastId, instances, same.trans ?_⟩
    rw [spawned]

theorem commit_only (w : World τ) :
    ∃ lastId instances, w.commit =
      { w with
        lastId := lastId
        instances := instances
        pending := { w.pending with destroys := [], spawns := [] } } := by
  unfold commit
  dsimp only
  induction w.pending.spawns with
  | nil => exact ⟨w.lastId, _, rfl⟩
  | cons s spawns ih =>
    obtain ⟨lastId, instances, same⟩ := ih
    rw [List.foldr_cons, same]
    obtain ⟨lastId', instances', spawned⟩ := spawn_only
      { w with
        lastId := lastId
        instances := instances
        pending := { w.pending with destroys := [], spawns := [] } } s.object s.position ⟨none, none⟩
    exact ⟨lastId', instances', spawned⟩

theorem commit_pending (w : World τ) :
    w.commit.pending = { w.pending with destroys := [], spawns := [] } := by
  obtain ⟨lastId, instances, same⟩ := commit_only w
  rw [same]

/-- With nothing to create or destroy the commit changes nothing. -/
theorem commit_nothing {w : World τ} (destroys : w.pending.destroys = [])
    (spawns : w.pending.spawns = []) : w.commit = w := by
  have kept : (w.instances.filter fun i => !([].contains i.id && i.destroyed)) = w.instances := by simp
  have same : ({ w.pending with destroys := [], spawns := [] } : Pending) = w.pending := by
    rw [← destroys, ← spawns]
  simp only [commit, destroys, spawns, kept, same, List.foldr_nil]

private theorem spawnPlaced_cons (w : World τ) (placement : Placement) (object : Nat)
    (placed : List (Placement × Nat)) :
    w.spawnPlaced ((placement, object) :: placed) =
      (w.spawn object ⟨placement.x, placement.y⟩ ⟨some placement.id, placement.layer⟩).spawnPlaced
        placed := rfl

/-- Placements whose objects are found are populated. -/
theorem spawnPlaced_populates {w : World τ} {placements : List Placement}
    {placed : List (Placement × Nat)} (found : placementObjects w.program placements = .ok placed) :
    ∃ is, Populates w.program w.lastId placements is ∧
      w.spawnPlaced placed =
        { w with lastId := w.lastId + placements.length, instances := w.instances ++ is } := by
  -- each placement is spawned in the world that the ones before it leave
  induction placements generalizing w placed with
  | nil =>
    cases found
    exact ⟨[], .nil, by simp [spawnPlaced]⟩
  | cons placement rest ih =>
    simp only [placementObjects] at found
    split at found
    · cases found
    next object known =>
      cases others : placementObjects w.program rest with
      | error cause => simp [others, bind, Except.bind] at found
      | ok objects =>
        simp only [others, bind, Except.bind, Except.ok.injEq] at found
        subst found
        obtain ⟨o, definition, _⟩ := Program.object?_of_index known
        let i : Instance τ := ⟨w.lastId + 1, object, ⟨some placement.id, placement.layer⟩,
          ⟨placement.x, placement.y⟩, .zero, 0, .ofSize o.size o.solid, .ofDeclarations o.declarations,
          [], true, false⟩
        have creates : placement.Creates w.program (w.lastId + 1) i := ⟨rfl, known, rfl, rfl, rfl, rfl, rfl⟩
        obtain ⟨is, populates, spawned⟩ :=
          ih (w := { w with lastId := w.lastId + 1, instances := w.instances ++ [i] }) others
        refine ⟨i :: is, .cons creates populates, ?_⟩
        rw [spawnPlaced_cons]
        simp only [spawn, definition, nextId]
        refine spawned.trans ?_
        simp only [List.append_assoc, List.singleton_append, List.length_cons, Nat.add_assoc,
          Nat.add_comm 1]

theorem spawn_spawned {w : World τ} (spawned : ∀ i ∈ w.instances, i.Spawned w.program) (object : Nat)
    (position : Vec Float32) (origin : Origin) :
    ∀ i ∈ (w.spawn object position origin).instances, i.Spawned w.program := by
  unfold spawn
  split
  · exact spawned
  next o found =>
    intro i member
    rcases List.mem_append.mp member with before | new
    · exact spawned i before
    · cases List.mem_singleton.mp new
      exact ⟨⟨o, found, rfl, rfl⟩, rfl, rfl⟩

theorem spawnPlaced_spawned {w : World τ} (spawned : ∀ i ∈ w.instances, i.Spawned w.program)
    (placed : List (Placement × Nat)) : ∀ i ∈ (w.spawnPlaced placed).instances, i.Spawned w.program := by
  unfold spawnPlaced
  -- the program, by which the objects are meant, stays the same
  induction placed generalizing w with
  | nil => exact spawned
  | cons first rest ih =>
    have program : ∀ object position origin, (w.spawn object position origin).program = w.program :=
      fun _ _ _ => (spawn_sameRun ..).program
    rw [List.foldl_cons, ← program]
    apply ih
    rw [program]
    exact spawn_spawned spawned _ _ _

/-- Placements are refused for one whose object is not declared. -/
theorem placementObjects_error {p : Program} {placements : List Placement} {cause : Dangling}
    (failed : placementObjects p placements = .error cause) :
    ∃ placement ∈ placements, p.objectIndex? placement.objectId = none ∧
      cause = .object placement.objectId := by
  induction placements with
  | nil => cases failed
  | cons placement rest ih =>
    simp only [placementObjects] at failed
    split at failed
    next unknown =>
      cases failed
      exact ⟨placement, by simp, unknown, rfl⟩
    next object _ =>
      cases others : placementObjects p rest with
      | ok objects => simp [others, bind, Except.bind] at failed
      | error cause' =>
        simp only [others, bind, Except.bind, Except.error.injEq] at failed
        obtain ⟨other, listed, unknown, same⟩ := ih (others.trans (congrArg _ failed))
        exact ⟨other, List.mem_cons_of_mem _ listed, unknown, same⟩

/-! ### rooms -/

theorem enterRoom_only (w : World τ) (id : String) :
    ∃ room lastId instances, (w.enterRoom id).world =
      { w with room := room, lastId := lastId, instances := instances } := by
  unfold enterRoom
  split
  · exact ⟨w.room, w.lastId, w.instances, rfl⟩
  next room _ =>
    split
    · exact ⟨w.room, w.lastId, w.instances, rfl⟩
    next placed _ =>
      obtain ⟨lastId, instances, same⟩ :=
        spawnPlaced_only { w with room := some ⟨room.id, ⟨room.width, room.height⟩⟩ } placed
      exact ⟨_, lastId, instances, same⟩

/-- A declared room is entered with the instances that it places, or one of its placements is to blame and
nothing changes. -/
theorem enterRoom_cases (w : World τ) {id : String} {room : RoomDefinition}
    (declared : w.project.room? id = some room) :
    (∃ is, Populates w.program w.lastId room.instances is ∧
      w.enterRoom id = .finished
        { w with
          room := some ⟨room.id, ⟨room.width, room.height⟩⟩
          lastId := w.lastId + room.instances.length
          instances := w.instances ++ is }) ∨
    ∃ placement ∈ room.instances, w.program.objectIndex? placement.objectId = none ∧
      w.enterRoom id = ⟨w, .failed (.object placement.objectId)⟩ := by
  simp only [enterRoom, declared]
  cases found : placementObjects w.program room.instances with
  | error cause =>
    obtain ⟨placement, listed, unknown, rfl⟩ := placementObjects_error found
    exact .inr ⟨placement, listed, unknown, rfl⟩
  | ok placed =>
    obtain ⟨is, populates, spawned⟩ := spawnPlaced_populates
      (w := { w with room := some ⟨room.id, ⟨room.width, room.height⟩⟩ }) found
    exact .inl ⟨is, populates, congrArg Played.finished spawned⟩

theorem enterRoom_spawned {w : World τ} (empty : w.instances = []) (id : String) :
    ∀ i ∈ (w.enterRoom id).world.instances, i.Spawned w.program := by
  have none : ∀ i ∈ w.instances, i.Spawned w.program := by simp [empty]
  unfold enterRoom
  split
  · exact none
  · split
    · exact none
    next room _ _ placed _ =>
      have entered : ∀ i ∈ { w with room := some ⟨room.id, ⟨room.width, room.height⟩⟩ }.instances,
          i.Spawned w.program := none
      exact spawnPlaced_spawned entered placed

theorem enterRoom_known {w : World τ} {id : String} (finished : (w.enterRoom id).ending = .finished) :
    ∃ room, w.project.room? id = some room := by
  unfold enterRoom at finished
  split at finished
  · cases finished
  next room declared => exact ⟨room, declared⟩

/-- The world in which a room has just been entered, with the instances that it places. -/
def entered (w : World τ) (room : RoomDefinition) (is : List (Instance τ)) : World τ :=
  { w with
    room := some ⟨room.id, ⟨room.width, room.height⟩⟩
    lastId := w.lastId + room.instances.length
    instances := is
    pending := .none }

/-- A change to a declared room either populates it, or leaves no instance at all: then the old room stays
the current one, and one of the placements is to blame. -/
theorem changeRoom_cases (w : World τ) {id : String} {room : RoomDefinition}
    (declared : w.project.room? id = some room) :
    (∃ is, Populates w.program w.lastId room.instances is ∧
      w.changeRoom id = .finished (w.entered room is)) ∨
    ∃ placement ∈ room.instances, w.program.objectIndex? placement.objectId = none ∧
      w.changeRoom id = ⟨w.leaveRoom, .failed (.object placement.objectId)⟩ :=
  w.leaveRoom.enterRoom_cases declared

end World

end Gameplay
