import Gameplay.Program
import Mathlib.Data.List.Forall2

/-!
# The layout of scripts

What the compiler lays out can be read back: the numbers of a compiled event stand for the items of
its script, whatever is laid out before or after it.

## Main results

`compile_reads`: event by event, a compiled program holds the scripts of its project.
`compile_script` and `compile_body`: so the body of an event is a list that stands for its script.

## Proof strategy

`Arena.Reads` says what a list of item numbers stands for, without the compiler. Laying out only
adds to an arena (`Arena.Extends`), and what is read stays readable in a larger arena
(`Arena.Reads.mono`), so each script is readable when it is laid out and ever after.
-/

namespace Gameplay

/-- How many items a script has, those of its branches included. -/
def Script.size : Script → Nat
  | .done => 0
  | .act _ rest => rest.size + 1
  | .branch _ thens elses rest => thens.size + elses.size + rest.size + 1

/-- What is left of a script at a place in it, or at one in its branches. -/
inductive Script.Part (part : Script) : Script → Prop
  | whole : Part part part
  | act {action : Action} {rest : Script} : Part part rest → Part part (.act action rest)
  | thens {condition : Condition} {thens elses rest : Script} :
      Part part thens → Part part (.branch condition thens elses rest)
  | elses {condition : Condition} {thens elses rest : Script} :
      Part part elses → Part part (.branch condition thens elses rest)
  | rest {condition : Condition} {thens elses rest : Script} :
      Part part rest → Part part (.branch condition thens elses rest)

namespace Script.Part

/-- A part of a part is a part. -/
theorem trans {a b c : Script} (inner : Part a b) (outer : Part b c) : Part a c := by
  induction outer with
  | whole => exact inner
  | act _ ih => exact .act ih
  | thens _ ih => exact .thens ih
  | elses _ ih => exact .elses ih
  | rest _ ih => exact .rest ih

theorem size_le {part script : Script} (within : Part part script) : part.size ≤ script.size := by
  induction within with
  | whole => exact Nat.le_refl _
  | act _ ih => simp only [size]; omega
  | thens _ ih => simp only [size]; omega
  | elses _ ih => simp only [size]; omega
  | rest _ ih => simp only [size]; omega

end Script.Part

namespace Arena

/-- The script that a list of item numbers stands for. -/
inductive Reads (a : Arena) : List Nat → Script → Prop
  | done : Reads a [] .done
  | act {n : Nat} {action : Action} {items : List Nat} {rest : Script} :
      a.nodes[n]? = some (.act action) → Reads a items rest →
      Reads a (n :: items) (.act action rest)
  | branch {n thenList elseList : Nat} {condition : Condition}
      {items thenItems elseItems : List Nat} {thens elses rest : Script} :
      a.nodes[n]? = some (.branch condition thenList elseList) →
      a.lists[thenList]? = some thenItems → Reads a thenItems thens →
      a.lists[elseList]? = some elseItems → Reads a elseItems elses →
      Reads a items rest → Reads a (n :: items) (.branch condition thens elses rest)

/-- A list of the arena that stands for a script. -/
def Holds (a : Arena) (list : Nat) (script : Script) : Prop :=
  ∃ items, a.lists[list]? = some items ∧ Reads a items script

/-- Every node and list of `a` stands in `b` under its number. -/
structure Extends (a b : Arena) : Prop where
  nodes : ∀ (n : Nat) (node : Node), a.nodes[n]? = some node → b.nodes[n]? = some node
  lists : ∀ (n : Nat) (items : List Nat), a.lists[n]? = some items → b.lists[n]? = some items

theorem Extends.refl (a : Arena) : Extends a a := ⟨fun _ _ found => found, fun _ _ found => found⟩

/-- An arena that was laid out further, twice, was laid out further. -/
theorem Extends.trans {a b c : Arena} (ab : Extends a b) (bc : Extends b c) : Extends a c :=
  ⟨fun n node found => bc.nodes n node (ab.nodes n node found),
    fun n items found => bc.lists n items (ab.lists n items found)⟩

def addNode (a : Arena) (node : Node) : Arena := { a with nodes := a.nodes.push node }

theorem extends_addNode (a : Arena) (node : Node) : Extends a (a.addNode node) := by
  refine ⟨fun n old found => ?_, fun _ _ found => found⟩
  have bound : n < a.nodes.size := (Array.getElem?_eq_some_iff.mp found).1
  simpa only [addNode, Array.getElem?_push_lt bound, Array.getElem?_eq_getElem bound] using found

theorem extends_addList (a : Arena) (items : List Nat) : Extends a (a.addList items).1 := by
  refine ⟨fun _ _ found => found, fun n old found => ?_⟩
  have bound : n < a.lists.size := (Array.getElem?_eq_some_iff.mp found).1
  simpa only [addList, Array.getElem?_push_lt bound, Array.getElem?_eq_getElem bound] using found

theorem addItems_branch (a : Arena) (condition : Condition) (thens elses rest : Script) :
    a.addItems (.branch condition thens elses rest) =
      let afterThens := a.addScript thens
      let afterElses := afterThens.1.addScript elses
      let withNode := afterElses.1.addNode (.branch condition afterThens.2 afterElses.2)
      ((withNode.addItems rest).1, afterElses.1.nodes.size :: (withNode.addItems rest).2) := rfl

theorem extends_addItems (a : Arena) (s : Script) : Extends a (a.addItems s).1 := by
  induction s generalizing a with
  | done => exact .refl a
  | act action rest ih => exact (extends_addNode a _).trans (ih _)
  | branch condition thens elses rest ihThens ihElses ihRest =>
    -- the two branches are laid out before the if-block takes its own number
    have afterThens : Extends a (a.addScript thens).1 := (ihThens a).trans (extends_addList _ _)
    have afterElses : Extends (a.addScript thens).1 ((a.addScript thens).1.addScript elses).1 :=
      (ihElses _).trans (extends_addList _ _)
    exact (afterThens.trans afterElses).trans ((extends_addNode _ _).trans (ihRest _))

theorem extends_addScript (a : Arena) (s : Script) : Extends a (a.addScript s).1 :=
  (extends_addItems a s).trans (extends_addList _ _)

/-- What a list stands for does not change when the arena grows. -/
theorem Reads.mono {a b : Arena} {items : List Nat} {s : Script} (grown : Extends a b)
    (reads : Reads a items s) : Reads b items s := by
  induction reads with
  | done => exact .done
  | act node _ ih => exact .act (grown.nodes _ _ node) ih
  | branch node thenList _ elseList _ _ ihThens ihElses ihRest =>
    exact .branch (grown.nodes _ _ node) (grown.lists _ _ thenList) ihThens
      (grown.lists _ _ elseList) ihElses ihRest

/-- What a list stands for does not change as the arena grows. -/
theorem Holds.mono {a b : Arena} {list : Nat} {s : Script} (grown : Extends a b)
    (holds : Holds a list s) : Holds b list s := by
  obtain ⟨items, found, reads⟩ := holds
  exact ⟨items, grown.lists _ _ found, reads.mono grown⟩

/-- A list of numbers stands for at most one script. -/
theorem Reads.unique {a : Arena} {items : List Nat} {s t : Script} (left : Reads a items s)
    (right : Reads a items t) : s = t := by
  -- the node of the first item decides which constructor the other reading has
  induction left generalizing t with
  | done => cases right; rfl
  | act node _ ih =>
    cases right with
    | act node' reads =>
      rw [node] at node'
      cases node'
      rw [ih reads]
    | branch node' => rw [node] at node'; cases node'
  | branch node thenList _ elseList _ _ ihThens ihElses ihRest =>
    cases right with
    | act node' => rw [node] at node'; cases node'
    | branch node' thenList' thens elseList' elses rest =>
      rw [node] at node'
      cases node'
      rw [thenList] at thenList'
      rw [elseList] at elseList'
      cases thenList'
      cases elseList'
      rw [ihThens thens, ihElses elses, ihRest rest]

/-- A list that is added stands for the script that its items stand for. -/
theorem addList_holds {a : Arena} {items : List Nat} {s : Script} (reads : Reads a items s) :
    Holds (a.addList items).1 (a.addList items).2 s :=
  ⟨items, by simp [addList], reads.mono (extends_addList a items)⟩

/-- Laying out a script gives numbers that stand for it. -/
theorem addItems_reads (a : Arena) (s : Script) : Reads (a.addItems s).1 (a.addItems s).2 s := by
  induction s generalizing a with
  | done => exact .done
  | act action rest ih =>
    have numbered : (a.addNode (.act action)).nodes[a.nodes.size]? = some (.act action) := by
      simp [addNode]
    exact .act ((extends_addItems _ rest).nodes _ _ numbered) (ih _)
  | branch condition thens elses rest ihThens ihElses ihRest =>
    rw [addItems_branch]
    dsimp only
    generalize made : a.addScript thens = first
    generalize madeNext : first.1.addScript elses = second
    -- each branch is readable as soon as it is laid out, and what follows only adds to it
    have thensHeld : Holds first.1 first.2 thens := made ▸ addList_holds (ihThens a)
    have elsesHeld : Holds second.1 second.2 elses := madeNext ▸ addList_holds (ihElses first.1)
    have grown : Extends first.1 second.1 := madeNext ▸ extends_addScript first.1 elses
    have numbered : (second.1.addNode (.branch condition first.2 second.2)).nodes[
        second.1.nodes.size]? = some (.branch condition first.2 second.2) := by
      simp [addNode]
    have later := extends_addItems (second.1.addNode (.branch condition first.2 second.2)) rest
    obtain ⟨thenItems, thenFound, thenReads⟩ :=
      thensHeld.mono ((grown.trans (extends_addNode _ _)).trans later)
    obtain ⟨elseItems, elseFound, elseReads⟩ := elsesHeld.mono ((extends_addNode _ _).trans later)
    exact .branch (later.nodes _ _ numbered) thenFound thenReads elseFound elseReads (ihRest _)

theorem addScript_holds (a : Arena) (s : Script) :
    Holds (a.addScript s).1 (a.addScript s).2 s :=
  addList_holds (addItems_reads a s)

/-- Laying out a script numbers each of its items once. -/
theorem addItems_size (a : Arena) (s : Script) :
    (a.addItems s).1.nodes.size = a.nodes.size + s.size := by
  induction s generalizing a with
  | done => rfl
  | act action rest ih =>
    have counted := ih (a.addNode (.act action))
    simp only [addItems, Script.size]
    simp only [addNode, Array.size_push] at counted
    omega
  | branch condition thens elses rest ihThens ihElses ihRest =>
    rw [addItems_branch]
    simp only [ihRest, addNode, Array.size_push, addScript, addList, ihElses, ihThens, Script.size]
    omega

end Arena

/-- An event with the list that stands for its script, which is no larger than the arena. -/
structure CompiledEvent.From (a : Arena) (e : Event) (c : CompiledEvent) : Prop where
  trigger : c.trigger = e.trigger
  body : a.Holds c.body e.items
  size : e.items.size ≤ a.nodes.size

/-- A compiled object and the definition that it comes from. -/
structure CompiledObject.From (a : Arena) (o : ObjectDefinition) (c : CompiledObject) : Prop where
  id : c.id = o.id
  name : c.name = o.name
  solid : c.solid = o.solid
  declarations : c.declarations = o.declarations
  events : List.Forall₂ (CompiledEvent.From a) o.events c.events

theorem Arena.Extends.nodes_size {a b : Arena} (grown : a.Extends b) :
    a.nodes.size ≤ b.nodes.size := by
  by_contra shrunk
  -- the first number that `b` does not have would have a node in `a`
  have last : b.nodes.size < a.nodes.size := by omega
  have found := grown.nodes b.nodes.size _ (Array.getElem?_eq_getElem last)
  simp at found

theorem CompiledEvent.From.mono {a b : Arena} {e : Event} {c : CompiledEvent}
    (grown : a.Extends b) (origin : CompiledEvent.From a e c) : CompiledEvent.From b e c :=
  ⟨origin.trigger, origin.body.mono grown, Nat.le_trans origin.size grown.nodes_size⟩

namespace Program

open Arena

theorem compileEvents_from {project : Project} {a b : Arena} {events : List Event}
    {compiled : List CompiledEvent} (returned : compileEvents project a events = .ok (b, compiled)) :
    Extends a b ∧ List.Forall₂ (CompiledEvent.From b) events compiled := by
  induction events generalizing a compiled with
  | nil =>
    simp only [compileEvents, Except.ok.injEq, Prod.mk.injEq] at returned
    obtain ⟨rfl, rfl⟩ := returned
    exact ⟨.refl a, .nil⟩
  | cons e es ih =>
    simp only [compileEvents, bind, Except.bind] at returned
    split at returned
    · cases returned
    · split at returned
      · cases returned
      next later called =>
        simp only [Except.ok.injEq, Prod.mk.injEq] at returned
        obtain ⟨rfl, rfl⟩ := returned
        obtain ⟨grown, rest⟩ := ih called
        -- the script is read where it was laid out, in an arena that has grown since
        refine ⟨(extends_addScript a e.items).trans grown, .cons ⟨rfl, ?_, ?_⟩ rest⟩
        · exact (addScript_holds a e.items).mono grown
        · have counted := addItems_size a e.items
          have bound := grown.nodes_size
          simp only [addScript, addList] at bound
          omega

/-- The arena grows by the events of each object, which stand for their scripts in it. -/
theorem compileObjects_from {project : Project} {size : Vec Float32} {a b : Arena}
    {objects : List ObjectDefinition} {compiled : List CompiledObject}
    (returned : compileObjects project size a objects = .ok (b, compiled)) :
    Extends a b ∧ List.Forall₂ (CompiledObject.From b) objects compiled := by
  induction objects generalizing a compiled with
  | nil =>
    simp only [compileObjects, Except.ok.injEq, Prod.mk.injEq] at returned
    obtain ⟨rfl, rfl⟩ := returned
    exact ⟨.refl a, .nil⟩
  | cons o os ih =>
    simp only [compileObjects, bind, Except.bind] at returned
    split at returned
    · cases returned
    · split at returned
      · cases returned
      next middle compiledEvents =>
        split at returned
        · cases returned
        next later called =>
          simp only [Except.ok.injEq, Prod.mk.injEq] at returned
          obtain ⟨rfl, rfl⟩ := returned
          obtain ⟨grown, events⟩ := compileEvents_from compiledEvents
          obtain ⟨grownLater, rest⟩ := ih called
          -- the events of the first object still stand for their scripts when the others are laid out
          refine ⟨grown.trans grownLater, .cons ⟨rfl, rfl, rfl, rfl, ?_⟩ rest⟩
          exact events.imp fun _ _ origin => origin.mono grownLater

/-- Object by object and event by event, a compiled program holds the scripts of its project. -/
theorem compile_reads {project : Project} {size : Vec Float32} {program : Program}
    (compiled : compile project size = .ok program) :
    List.Forall₂ (CompiledObject.From program.arena) project.objects program.objects := by
  simp only [compile, bind, Except.bind] at compiled
  split at compiled
  · cases compiled
  next laid called =>
    cases compiled
    exact (compileObjects_from called).2

end Program

/-! ### the body of an event -/

/-- The script of an event, by the number of its object and its slot. -/
def Project.script? (p : Project) (object slot : Nat) : Option Script :=
  ((p.objects[object]?).bind (·.events[slot]?)).map (·.items)

/-- Related lists have related elements at the same positions. -/
theorem related_at {α β : Type} {R : α → β → Prop} {as : List α} {bs : List β}
    (related : List.Forall₂ R as bs) {n : Nat} {a : α} (found : as[n]? = some a) :
    ∃ b, bs[n]? = some b ∧ R a b := by
  induction related generalizing n with
  | nil => cases found
  | cons head tail ih =>
    cases n with
    | zero =>
      cases found
      exact ⟨_, rfl, head⟩
    | succ n => exact ih found

namespace Program

/-- Every event of the project is compiled. -/
theorem compile_script {project : Project} {size : Vec Float32} {program : Program}
    (compiled : compile project size = .ok program) {object slot : Nat} {script : Script}
    (event : project.script? object slot = some script) :
    ∃ body, program.body? object slot = some body ∧ program.arena.Holds body script ∧
      script.size ≤ program.arena.nodes.size := by
  obtain ⟨e, numbered, rfl⟩ := Option.map_eq_some_iff.mp event
  obtain ⟨o, declared, listed⟩ := Option.bind_eq_some_iff.mp numbered
  obtain ⟨c, compiledObject, fromObject⟩ := related_at (compile_reads compiled) declared
  obtain ⟨d, compiledEvent, fromEvent⟩ := related_at fromObject.events listed
  refine ⟨d.body, ?_, fromEvent.body, fromEvent.size⟩
  simp [body?, object?, compiledObject, compiledEvent]

/-- Every body comes from an event of the project. -/
theorem compile_body {project : Project} {size : Vec Float32} {program : Program}
    (compiled : compile project size = .ok program) {object slot body : Nat}
    (found : program.body? object slot = some body) :
    ∃ script, project.script? object slot = some script ∧ program.arena.Holds body script ∧
      script.size ≤ program.arena.nodes.size := by
  obtain ⟨d, numbered, rfl⟩ := Option.map_eq_some_iff.mp found
  obtain ⟨c, compiledObject, listed⟩ := Option.bind_eq_some_iff.mp numbered
  obtain ⟨o, declared, fromObject⟩ := related_at (compile_reads compiled).flip compiledObject
  obtain ⟨e, event, fromEvent⟩ := related_at fromObject.events.flip listed
  refine ⟨e.items, ?_, fromEvent.body, fromEvent.size⟩
  simp [Project.script?, declared, event]

end Program

/-! ### an example -/

/-- What the cat of `napping` does in a step: it naps within an if-block, and then scores. -/
def napScript : Script :=
  .branch ⟨.literal (.bool true), .eq, .literal (.bool true)⟩
    (.act (.wait (.literal (.number 5))) .done) .done
    (.act (.changeScore (.literal (.number 1))) .done)

def napping : Project where
  version := 1
  declarations := []
  objects := [⟨"cat", "Cat", none, some 1, some 1, false, [], [⟨.step, napScript⟩]⟩]
  rooms := [⟨"room", "Room", 10, 10, [⟨"bed", "cat", 0, 0, none⟩]⟩]
  sprites := []
  sounds := []

/-- The two branches of the if-block have the numbers 0 and 1, and the body has the number 2. -/
def napProgram : Program where
  arena := ⟨#[.act (.wait (.literal (.number 5))),
    .branch ⟨.literal (.bool true), .eq, .literal (.bool true)⟩ 0 1,
    .act (.changeScore (.literal (.number 1)))], #[[0], [], [1, 2]]⟩
  objects := [⟨"cat", "Cat", false, ⟨1, 1⟩, [], [⟨.step, 2⟩]⟩]

example : Program.compile napping .zero = .ok napProgram := by rfl

end Gameplay
