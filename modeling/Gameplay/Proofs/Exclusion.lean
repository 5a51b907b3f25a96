import Gameplay.Proofs.EditorCheck
import Gameplay.Proofs.Scoping

/-!
# Exclusion

The editor's check of a placement that is being moved leaves out the placement itself, which it is told by
its id. The check then takes one placement for it, while nothing keeps an id from being used twice.

## Main result

`blocks_exclude`: the check that leaves an id out is the check of the room without the last placement of that
id. So it is that of the room without any of them if the id is used at most once.

## Proof strategy

`blocks_eq` says what the check is without numbers: whether the candidate strikes one of the placements that
are kept. What is left out is the number of a position, which is as good as erased
(`blocked_placementBodies_except`).
-/

namespace Gameplay

/-- A list without its last element that satisfies a predicate. -/
def withoutLast {α : Type} (p : α → Bool) (as : List α) : List α :=
  match lastIndex? p as with
  | some n => as.eraseIdx n
  | none => as

/-- If at most one element satisfies a predicate, the list without the last of them has none. -/
theorem withoutLast_eq_filter {α : Type} {p : α → Bool} {as : List α} (once : as.countP p ≤ 1) :
    withoutLast p as = as.filter fun a => !p a := by
  induction as with
  | nil => rfl
  | cons a as ih =>
    rw [List.countP_cons] at once
    have rest := ih (by omega)
    have present := lastIndex?_isSome p as
    unfold withoutLast at rest ⊢
    simp only [lastIndex?]
    cases found : lastIndex? p as with
    | some n =>
      -- the last one comes later, so this is none
      rw [found, Option.isSome_some] at present
      have later : 0 < as.countP p := List.countP_pos_iff.mpr (List.any_eq_true.mp present.symm)
      have other : p a = false := by
        by_contra satisfied
        rw [if_pos (by simpa using satisfied)] at once
        omega
      rw [found] at rest
      simp only [List.eraseIdx_cons_succ, List.filter_cons, other, rest, Bool.not_false, if_true]
    | none =>
      rw [found] at rest
      dsimp only at rest
      cases last : p a with
      | true =>
        simp only [if_true, List.eraseIdx_cons_zero, List.filter_cons, last, Bool.not_true,
          Bool.false_eq_true, if_false, ← rest]
      | false =>
        simp only [Bool.false_eq_true, if_false, List.filter_cons, last, Bool.not_false, if_true, ← rest]

namespace Program

variable {p : Program}

/-- Whether a body would collide with that of a placement. -/
def strikes (p : Program) (candidate : Body Float32) (placement : Placement) : Bool :=
  match p.placementBody 0 placement with
  | .ok body => candidate.block.collides body.block
  | .error _ => false

theorem placementBody_succeeds {placement : Placement} (known : (p.objectIndex? placement.objectId).isSome)
    (id : Nat) : ∃ body, p.placementBody id placement = .ok body := by
  obtain ⟨object, found⟩ := Option.isSome_iff_exists.mp known
  obtain ⟨o, present, _⟩ := object?_of_index found
  simp only [placementBody, found, Option.bind_some, present]
  exact ⟨_, rfl⟩

theorem placementBodies_succeeds {placements : List Placement}
    (known : ∀ placement ∈ placements, (p.objectIndex? placement.objectId).isSome) (first : Nat) :
    ∃ bodies, p.placementBodies first placements = .ok bodies := by
  induction placements generalizing first with
  | nil => exact ⟨[], rfl⟩
  | cons placement rest ih =>
    obtain ⟨body, made⟩ := placementBody_succeeds (known placement List.mem_cons_self) first
    have known' : ∀ other ∈ rest, (p.objectIndex? other.objectId).isSome :=
      fun other listed => known other (List.mem_cons_of_mem _ listed)
    obtain ⟨bodies, later⟩ := ih known' (first + 1)
    exact ⟨body :: bodies, by simp only [placementBodies, made, later, bind, Except.bind]⟩

/-- The number of a body plays no part in what it collides with. -/
theorem placementBody_strikes {placement : Placement} {id : Nat} {body : Body Float32}
    (made : p.placementBody id placement = .ok body) (candidate : Body Float32) :
    body.id = id ∧ p.strikes candidate placement = candidate.block.collides body.block := by
  unfold placementBody at made
  split at made
  · cases made
  next o found =>
    cases made
    simp only [strikes, placementBody, found]
    exact ⟨trivial, rfl⟩

private theorem placementBodies_cons {placement : Placement} {rest : List Placement} {first : Nat}
    {bodies : List (Body Float32)} (made : p.placementBodies first (placement :: rest) = .ok bodies)
    {candidate : Body Float32} (apart : candidate.id < first) (excluded : Option Nat) :
    ∃ others, p.placementBodies (first + 1) rest = .ok others ∧ candidate.blocked bodies excluded =
      (some first != excluded && p.strikes candidate placement || candidate.blocked others excluded) := by
  simp only [placementBodies, bind, Except.bind] at made
  split at made
  · cases made
  next body one =>
    split at made
    · cases made
    next others later =>
      cases made
      obtain ⟨number, strikes⟩ := placementBody_strikes one candidate
      have other : (first != candidate.id) = true := bne_iff_ne.mpr (Nat.ne_of_gt apart)
      refine ⟨others, later, ?_⟩
      simp only [Body.blocked, List.any_cons, number, other, Bool.true_and, strikes]

variable {placements : List Placement} {first : Nat} {bodies : List (Body Float32)} {candidate : Body Float32}

/-- A candidate is blocked iff it strikes a placement, unless the number of one is left out. -/
theorem blocked_placementBodies (made : p.placementBodies first placements = .ok bodies)
    (apart : candidate.id < first) {excluded : Option Nat} (before : ∀ n ∈ excluded, n < first) :
    candidate.blocked bodies excluded = placements.any (p.strikes candidate) := by
  induction placements generalizing first bodies with
  | nil =>
    cases made
    rfl
  | cons placement rest ih =>
    obtain ⟨others, later, blocked⟩ := placementBodies_cons made apart excluded
    -- numbers only grow, so the one that is left out does not come up
    have kept : (some first != excluded) = true :=
      bne_iff_ne.mpr fun same => Nat.lt_irrefl first (before first same.symm)
    rw [blocked, kept, Bool.true_and, List.any_cons,
      ih later (Nat.lt_succ_of_lt apart) fun n same => Nat.lt_succ_of_lt (before n same)]

/-- To leave out the number of a position is to erase the position. -/
theorem blocked_placementBodies_except (made : p.placementBodies first placements = .ok bodies)
    (apart : candidate.id < first) (n : Nat) :
    candidate.blocked bodies (some (n + first)) = (placements.eraseIdx n).any (p.strikes candidate) := by
  induction placements generalizing first bodies n with
  | nil =>
    cases made
    rfl
  | cons placement rest ih =>
    obtain ⟨others, later, blocked⟩ := placementBodies_cons made apart (some (n + first))
    have apart' : candidate.id < first + 1 := Nat.lt_succ_of_lt apart
    rw [blocked]
    cases n with
    | zero =>
      -- the other numbers are greater
      have before : ∀ n ∈ some (0 + first), n < first + 1 := by simp
      rw [blocked_placementBodies later apart' before, Nat.zero_add, bne_self_eq_false, Bool.false_and,
        Bool.false_or, List.eraseIdx_cons_zero]
    | succ n =>
      have kept : (some first != some (n + 1 + first)) = true := by
        rw [bne_iff_ne, Ne, Option.some.injEq]
        omega
      have number : n + 1 + first = n + (first + 1) := by omega
      rw [kept, Bool.true_and, number, ih later apart' n, List.eraseIdx_cons_succ, List.any_cons]

end Program

/-- The placements of a room that a check keeps. -/
def Placement.kept (exclude : Option String) (placements : List Placement) : List Placement :=
  match exclude with
  | none => placements
  | some id => withoutLast (·.id == id) placements

section

variable {project : Project} {default : Vec Float32} {program : Program} {roomId : String}
  {room : RoomDefinition} {candidate : Placement}

/-- A check tells whether the candidate strikes a placement that is kept. -/
theorem Project.blocks_eq (compiled : Program.compile project default = .ok program)
    (known : project.room? roomId = some room)
    (declared : ∀ placement ∈ room.instances, project.declaresObject placement.objectId = true)
    {body : Body Float32} (made : program.placementBody 0 candidate = .ok body) (exclude : Option String) :
    project.blocks roomId candidate exclude default =
      .ok ((Placement.kept exclude room.instances).any (program.strikes body)) := by
  obtain ⟨bodies, others⟩ := Program.placementBodies_succeeds
    (fun placement listed => Program.compile_declares compiled (declared placement listed)) 1
  -- the candidate has number zero, so it is none of the bodies, which are numbered from one
  have number : body.id < 1 := by
    rw [(Program.placementBody_strikes made body).1]
    exact Nat.zero_lt_one
  simp only [blocks, known, compiled, others, made, bind, Except.bind]
  cases exclude with
  | none =>
    rw [Option.bind_none, Program.blocked_placementBodies others number (by simp), Placement.kept]
  | some id =>
    simp only [Option.bind_some, Placement.kept, withoutLast]
    cases lastIndex? (fun placement : Placement => placement.id == id) room.instances with
    | none => rw [Option.map_none, Program.blocked_placementBodies others number (by simp)]
    | some n => rw [Option.map_some, Program.blocked_placementBodies_except others number n]

/-- What a check that leaves an id out gives, for a room whose placements are all of declared objects: it is
the check of the room from which the last placement of that id has been removed. If the id is used at most
once, it is the check of the room without any placement of that id. -/
theorem Project.blocks_exclude (compiled : Program.compile project default = .ok program)
    (known : project.room? roomId = some room)
    (declared : ∀ placement ∈ room.instances, project.declaresObject placement.objectId = true)
    (possible : project.declaresObject candidate.objectId = true) (id : String) :
    ∃ blocked, project.blocks roomId candidate (some id) default = .ok blocked ∧
      (project.revise roomId (withoutLast (·.id == id))).blocks roomId candidate none default = .ok blocked ∧
      (room.instances.countP (·.id == id) ≤ 1 →
        (project.revise roomId (·.filter (·.id != id))).blocks roomId candidate none default =
          .ok blocked) := by
  obtain ⟨body, made⟩ := Program.placementBody_succeeds (Program.compile_declares compiled possible) 0
  -- rooms are not compiled, so a program stays the same if placements are removed
  have removed (change : List Placement → List Placement)
      (fewer : ∀ placement ∈ change room.instances, placement ∈ room.instances) :
      (project.revise roomId change).blocks roomId candidate none default =
        .ok ((change room.instances).any (program.strikes body)) := by
    have compiled' : Program.compile (project.revise roomId change) default = .ok program := by
      rw [revise, Program.compile_rooms, compiled]
    have known' : (project.revise roomId change).room? roomId =
        some { room with instances := change room.instances } := by
      rw [room?_revise, known, Option.map_some]
    have declared' : ∀ placement ∈ change room.instances,
        project.declaresObject placement.objectId = true :=
      fun placement listed => declared placement (fewer placement listed)
    exact blocks_eq compiled' known' declared' made none
  refine ⟨_, blocks_eq compiled known declared made (some id), removed _ fun placement listed => ?_,
    fun once => ?_⟩
  · unfold withoutLast at listed
    split at listed
    · exact List.mem_of_mem_eraseIdx listed
    · exact listed
  · rw [removed _ fun placement listed => List.mem_of_mem_filter listed, Placement.kept,
      withoutLast_eq_filter once]
    rfl

end

/-- A room with two walls of one id and a third of its own. -/
def walled : Project where
  version := 1
  declarations := []
  objects := [⟨"wall", "Wall", none, some 32, some 32, true, [], []⟩]
  rooms := [⟨"room", "Room", 320, 240,
    [⟨"a", "wall", 0, 0, none⟩, ⟨"a", "wall", 100, 0, none⟩, ⟨"b", "wall", 200, 0, none⟩]⟩]
  sprites := []
  sounds := []

private theorem walled_compiles : ∃ program, Program.compile walled ⟨32, 32⟩ = .ok program := ⟨_, rfl⟩

private theorem walled_room : walled.room? "room" = walled.rooms[0]? := rfl

private theorem walled_declared : ∀ room, walled.rooms[0]? = some room →
    ∀ placement ∈ room.instances, walled.declaresObject placement.objectId = true := by
  rintro room ⟨⟩
  decide +kernel

/-- The third wall does not block itself when it is moved a little. -/
theorem Project.blocks_exclude_walled :
    let moved : Placement := ⟨"b", "wall", 210, 5, none⟩
    walled.blocks "room" moved none ⟨32, 32⟩ = .ok true ∧
      walled.blocks "room" moved (some "b") ⟨32, 32⟩ = .ok false ∧
      (walled.revise "room" (withoutLast (·.id == "b"))).blocks "room" moved none ⟨32, 32⟩ = .ok false ∧
      (walled.revise "room" (·.filter (·.id != "b"))).blocks "room" moved none ⟨32, 32⟩ = .ok false := by
  intro moved
  have blocked : walled.blocks "room" moved none ⟨32, 32⟩ = .ok true := by decide +kernel
  have free : walled.blocks "room" moved (some "b") ⟨32, 32⟩ = .ok false := by decide +kernel
  obtain ⟨program, compiled⟩ := walled_compiles
  have possible : walled.declaresObject moved.objectId = true := rfl
  obtain ⟨answer, excluded, last, all⟩ :=
    blocks_exclude compiled walled_room (walled_declared _ rfl) possible "b"
  cases free.symm.trans excluded
  exact ⟨blocked, free, last, all (by decide +kernel)⟩

/-- It is not so that leaving an id out is as good as removing every placement of that id: of two walls of one
id the first still blocks. -/
theorem Project.blocks_exclude_all_refuted :
    ¬ ∀ (project : Project) (default : Vec Float32) (program : Program) (roomId : String)
      (room : RoomDefinition) (candidate : Placement) (id : String),
      Program.compile project default = .ok program → project.room? roomId = some room →
      (∀ placement ∈ room.instances, project.declaresObject placement.objectId = true) →
      project.declaresObject candidate.objectId = true →
      project.blocks roomId candidate (some id) default =
        (project.revise roomId (·.filter (·.id != id))).blocks roomId candidate none default := by
  intro same
  obtain ⟨program, compiled⟩ := walled_compiles
  have removed := same walled ⟨32, 32⟩ program "room" _ ⟨"new", "wall", 5, 5, none⟩ "a" compiled
    walled_room (walled_declared _ rfl) rfl
  revert removed
  decide +kernel

end Gameplay
