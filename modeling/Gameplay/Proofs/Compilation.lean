import Gameplay.Proofs.Resolution
import Gameplay.Proofs.RoomEntry
import Gameplay.Proofs.Scoping

/-!
# What compiles

A document compiles iff everything that its objects and their triggers name is declared, before or after the
place that names it. What is compiled corresponds to the document, object by object and event by event.

## Main result

`compile_accepts_what_resolves`: what compiles, with which error all else is refused, and what a compiled
program is.

## Proof strategy

The compiler checks a name where it comes to it, and lays scripts out between two checks. `Resolved` only keeps
which names were looked up in which order, so the arena may be anything (`compileEvents_resolved`,
`compileObjects_resolved`).
-/

namespace Gameplay

/-! ### the names of a document, in its order -/

def Trigger.names : Trigger → List Dangling
  | .collision target => [.object target]
  | .custom _ (some source) => [.object source]
  | _ => []

/-- What an object names: its sprite, and then what the triggers of its events name. -/
def ObjectDefinition.names (o : ObjectDefinition) : List Dangling :=
  (o.spriteId.map Dangling.sprite).toList ++ o.events.flatMap fun e => e.trigger.names

def Project.names (p : Project) : List Dangling := p.objects.flatMap (·.names)

/-- The first sprite that an object shows, if it is declared. -/
def ObjectDefinition.sprite? (o : ObjectDefinition) (p : Project) : Option Sprite :=
  o.spriteId.bind fun id => p.sprites.find? (·.id == id)

/-- The size of an object. Each axis is for itself: it is the one that the object gives, else that of its
sprite, else the default. -/
def ObjectDefinition.sizeWithin (o : ObjectDefinition) (p : Project) (default : Vec Float32) : Vec Float32 where
  x := (o.width.or ((o.sprite? p).map (·.width))).getD default.x
  y := (o.height.or ((o.sprite? p).map (·.height))).getD default.y

/-- A program is what a document is compiled to. Its objects are those of the document, in order and each
of the right size, and an id stands for the last object that has it. -/
structure Program.Renders (program : Program) (p : Project) (default : Vec Float32) : Prop where
  objects : List.Forall₂ (fun o c => CompiledObject.From program.arena o c ∧ c.size = o.sizeWithin p default)
    p.objects program.objects
  known : ∀ id n, program.objectIndex? id = some n ↔
    (∃ o, p.objects[n]? = some o ∧ o.id = id) ∧ ∀ m o, p.objects[m]? = some o → o.id = id → m ≤ n
  unknown : ∀ id, program.objectIndex? id = none ↔ ∀ o ∈ p.objects, o.id ≠ id

/-! ### the last index -/

section

variable {α : Type} {P : α → Bool} {as : List α} {n : Nat}

/-- There is a last index if the predicate holds somewhere. -/
theorem lastIndex?_exists {m : Nat} {a : α} (there : as[m]? = some a) (holds : P a = true) :
    ∃ n, lastIndex? P as = some n := by
  rw [← Option.isSome_iff_exists, lastIndex?_isSome]
  exact List.any_eq_true.mpr ⟨a, List.mem_of_getElem? there, holds⟩

theorem lastIndex?_greatest (found : lastIndex? P as = some n) {m : Nat} {a : α} (there : as[m]? = some a)
    (holds : P a = true) : m ≤ n := by
  induction as generalizing n m with
  | nil => cases there
  | cons b as ih =>
    simp only [lastIndex?] at found
    cases m with
    | zero => exact Nat.zero_le n
    | succ m =>
      -- an element of the tail satisfies the predicate, so the index comes from the tail
      obtain ⟨k, later⟩ : ∃ k, lastIndex? P as = some k := lastIndex?_exists there holds
      simp only [later, Option.some.injEq] at found
      have below := ih later there
      omega

/-- The last index is the greatest one at which the predicate holds. -/
theorem lastIndex?_eq_some_iff : lastIndex? P as = some n ↔
    (∃ a, as[n]? = some a ∧ P a = true) ∧ ∀ m a, as[m]? = some a → P a = true → m ≤ n := by
  constructor
  · intro found
    exact ⟨lastIndex?_satisfies found, fun m a there holds => lastIndex?_greatest found there holds⟩
  · rintro ⟨⟨a, there, holds⟩, greatest⟩
    obtain ⟨k, found⟩ := lastIndex?_exists there holds
    obtain ⟨b, last, lastHolds⟩ := lastIndex?_satisfies found
    -- the index that is found and the greatest one bound each other
    have upper := greatest k b last lastHolds
    have lower := lastIndex?_greatest found there holds
    rw [found, Nat.le_antisymm upper lower]

/-- Lists of which the elements correspond, and satisfy predicates alike, have the same last index. -/
theorem lastIndex?_related {β : Type} {R : α → β → Prop} {Q : β → Bool} {bs : List β}
    (related : List.Forall₂ R as bs) (alike : ∀ a b, R a b → Q b = P a) :
    lastIndex? Q bs = lastIndex? P as := by
  induction related with
  | nil => rfl
  | cons head _ ih => rw [lastIndex?, lastIndex?, ih, alike _ _ head]

end

namespace Program

variable {p : Project} {default : Vec Float32}

/-! ### look-ups of the compiler -/

/-- A trigger is checked by a look-up of the object that it names. -/
theorem checkTrigger_resolved (p : Project) (t : Trigger) : Resolved p.Resolves t.names (checkTrigger p t) := by
  have checked : ∀ id : String, Resolved p.Resolves [.object id]
      (if p.declaresObject id then .ok () else .error (.object id)) := by
    intro id
    apply Resolved.single
    · intro declared
      exact ⟨(), if_pos (Project.resolves_object.mp declared)⟩
    · intro unknown
      exact if_neg fun declared => unknown (Project.resolves_object.mpr declared)
  cases t with
  | create | step => exact .pure ()
  | collision target => exact checked target
  | custom name source =>
    cases source with
    | none => exact .pure ()
    | some source => exact checked source

/-- The size of an object is decided by a look-up of its sprite, if it has one. -/
theorem objectSize_resolved (p : Project) (default : Vec Float32) (o : ObjectDefinition) :
    Resolved p.Resolves (o.spriteId.map Dangling.sprite).toList (objectSize p default o) := by
  cases shown : o.spriteId with
  | none =>
    simp only [objectSize, shown]
    exact .pure _
  | some id =>
    simp only [objectSize, shown]
    apply Resolved.single
    · rintro ⟨s, listed, rfl⟩
      -- the sprite that is found may be another one of the same id
      have found : (p.sprite? s.id).isSome := List.find?_isSome.mpr ⟨s, listed, by simp⟩
      obtain ⟨first, same⟩ := Option.isSome_iff_exists.mp found
      exact ⟨_, by rw [same]⟩
    · intro unknown
      have missing : p.sprite? id = none := by
        apply List.find?_eq_none.mpr
        intro s listed same
        exact unknown ⟨s, listed, eq_of_beq same⟩
      rw [missing]

theorem compileEvents_resolved (p : Project) (a : Arena) (events : List Event) :
    Resolved p.Resolves (events.flatMap fun e => e.trigger.names) (compileEvents p a events) := by
  induction events generalizing a with
  | nil => exact .pure _
  | cons e events ih =>
    apply (checkTrigger_resolved p e.trigger).bind
    intro _ _
    -- the script is laid out without a look-up, so only the arena differs for the events that follow
    exact (ih _).map fun laid => (laid.1, ⟨e.trigger, (a.addScript e.items).2⟩ :: laid.2)

theorem compileObjects_resolved (p : Project) (default : Vec Float32) (a : Arena)
    (objects : List ObjectDefinition) :
    Resolved p.Resolves (objects.flatMap (·.names)) (compileObjects p default a objects) := by
  induction objects generalizing a with
  | nil => exact .pure _
  | cons o objects ih =>
    -- the names of an object are its sprite and those of its events, and then come the other objects
    rw [List.flatMap_cons, ObjectDefinition.names, List.append_assoc]
    apply (objectSize_resolved p default o).bind
    intro size _
    apply (compileEvents_resolved p a o.events).bind
    intro laid _
    exact (ih laid.1).map fun later =>
      (later.1, ⟨o.id, o.name, o.solid, size, o.declarations, laid.2⟩ :: later.2)

/-- The compiler looks up what the document names, in its order. -/
theorem compile_resolved (p : Project) (default : Vec Float32) :
    Resolved p.Resolves p.names (compile p default) :=
  (compileObjects_resolved p default .empty p.objects).map fun laid => Program.mk laid.1 laid.2

/-! ### what is compiled -/

theorem objectSize_within {o : ObjectDefinition} {size : Vec Float32} (sized : objectSize p default o = .ok size) :
    size = o.sizeWithin p default := by
  unfold objectSize at sized
  split at sized
  next none =>
    cases sized
    simp [ObjectDefinition.sizeWithin, ObjectDefinition.sprite?, none]
  next id shown =>
    split at sized
    · cases sized
    next s found =>
      cases sized
      have sprite : o.sprite? p = some s := by rw [ObjectDefinition.sprite?, shown]; exact found
      simp [ObjectDefinition.sizeWithin, sprite]

/-- Compiled objects have the sizes that their definitions give, in the same order. -/
theorem compileObjects_sizes {a b : Arena} {objects : List ObjectDefinition} {compiled : List CompiledObject}
    (returned : compileObjects p default a objects = .ok (b, compiled)) :
    List.Forall₂ (fun o c => c.size = o.sizeWithin p default) objects compiled := by
  induction objects generalizing a compiled with
  | nil =>
    cases returned
    exact .nil
  | cons o objects ih =>
    -- none of the three parts has failed: the size, the events, and the other objects
    simp only [compileObjects, bind, Except.bind] at returned
    split at returned
    · cases returned
    next size sized =>
      split at returned
      · cases returned
      · split at returned
        · cases returned
        next called =>
          cases returned
          exact .cons (objectSize_within sized) (ih called)

theorem compile_sizes {program : Program} (compiled : compile p default = .ok program) :
    List.Forall₂ (fun o c => c.size = o.sizeWithin p default) p.objects program.objects := by
  simp only [compile, bind, Except.bind] at compiled
  split at compiled
  · cases compiled
  next called =>
    cases compiled
    exact compileObjects_sizes called

theorem compile_index {program : Program} (compiled : compile p default = .ok program) (id : String) :
    program.objectIndex? id = lastIndex? (·.id == id) p.objects := by
  apply lastIndex?_related (compile_reads compiled)
  intro o c origin
  rw [origin.id]

/-- A program has an object of an id iff the document declares one. -/
theorem compile_object {program : Program} (compiled : compile p default = .ok program) (id : String) :
    (program.objectIndex? id).isSome = p.declaresObject id := by
  rw [compile_index compiled, lastIndex?_isSome, Project.declaresObject]

theorem compile_renders {program : Program} (compiled : compile p default = .ok program) :
    program.Renders p default where
  objects := (compile_reads compiled).mp (fun _ _ origin sized => ⟨origin, sized⟩) (compile_sizes compiled)
  known id n := by
    rw [compile_index compiled, lastIndex?_eq_some_iff]
    simp only [beq_iff_eq]
  unknown id := by
    rw [← Option.not_isSome_iff_eq_none, compile_object compiled, Project.declaresObject]
    simp

/-- A document compiles iff each name in it resolves, wherever the thing it names is declared. Otherwise the
error is the first name that does not resolve, in the order of the document: object by object, the sprite
before the events. What compiles has the objects and the events of the document in its order, each object
with its size, and an id stands for the last object that has it. -/
theorem compile_accepts_what_resolves (p : Project) (default : Vec Float32) :
    ((∃ program, compile p default = .ok program) ↔ ∀ name ∈ p.names, p.Resolves name) ∧
      (∀ cause, compile p default = .error cause ↔ FirstWithout p.Resolves p.names cause) ∧
      ∀ program, compile p default = .ok program → program.Renders p default := by
  have resolved := compile_resolved p default
  exact ⟨resolved.ok_iff, fun _ => resolved.error_iff, fun _ compiled => compile_renders compiled⟩

end Program

/-! ### an example -/

/-- Two crates of one id and a wall, which the first crate names before it is declared. -/
def crates : Project where
  version := 1
  declarations := []
  objects :=
    [⟨"crate", "Old crate", some "box", some 10, none, false, [],
        [⟨.collision "wall", .done⟩, ⟨.custom "open" (some "wall"), .done⟩]⟩,
      ⟨"wall", "Wall", none, none, some 7, true, [], []⟩,
      ⟨"crate", "New crate", none, none, none, false, [], []⟩]
  rooms := []
  sprites := [⟨"box", "Box", 64, 48⟩, ⟨"box", "Small box", 1, 1⟩]
  sounds := []

/-- The old crate has its own width and the height of the first box. -/
def crateProgram : Program where
  arena := ⟨#[], #[[], []]⟩
  objects :=
    [⟨"crate", "Old crate", false, ⟨10, 48⟩, [], [⟨.collision "wall", 0⟩, ⟨.custom "open" (some "wall"), 1⟩]⟩,
      ⟨"wall", "Wall", true, ⟨32, 7⟩, [], []⟩,
      ⟨"crate", "New crate", false, ⟨32, 32⟩, [], []⟩]

namespace Program

/-- The crates compile, and the new one has taken the id. -/
theorem compile_accepts_what_resolves_crates :
    compile crates ⟨32, 32⟩ = .ok crateProgram ∧ (∀ name ∈ crates.names, crates.Resolves name) ∧
      crateProgram.Renders crates ⟨32, 32⟩ ∧ crateProgram.objectIndex? "crate" = some 2 := by
  have compiled : compile crates ⟨32, 32⟩ = .ok crateProgram := by rfl
  obtain ⟨accepts, _, renders⟩ := compile_accepts_what_resolves crates ⟨32, 32⟩
  exact ⟨compiled, accepts.mp ⟨crateProgram, compiled⟩, renders crateProgram compiled, by decide⟩

/-- The sprite is missed before the wall, though both are gone. -/
example : compile { crates with objects := crates.objects.take 1, sprites := [] } .zero =
    .error (.sprite "box") := by rfl

end Program

end Gameplay
