import Gameplay.Proofs.Layout

/-!
# The forest of a program

The lists and the nodes of a compiled program make up a forest. Each event has a tree, whose root is the
list of its body. A list leads to the items that stand in it, and an if-block to its two branches.

## Main result

`compile_forest`: each list is named once, by an event or by an if-block, each node stands in one list, the
branches of an if-block are numbered before the list that it stands in, and the tree of an event reads back
as the script of that event.

## Proof strategy

While a script is laid out there are lists that no if-block names yet and nodes that stand in no list yet.
`Arena.Forest` counts those loose ends along. A new node ties up the lists that it names and is loose itself,
a new list ties up its items (`Forest.addNode`, `Forest.addList`), so the recursion over the script only has
to hand the loose ends on. What a list reads as was settled when it was laid out (`compile_reads`).
-/

namespace Gameplay

/-- The lists that a node names. -/
def Node.lists : Node → List Nat
  | .act _ => []
  | .branch _ thens elses => [thens, elses]

namespace Arena

/-- The lists that the if-blocks of an arena name. -/
def branches (a : Arena) : List Nat := a.nodes.toList.flatMap (·.lists)

def items (a : Arena) : List Nat := a.lists.toList.flatten

/-- The branches of an if-block have smaller numbers than the list that the block stands in. -/
def Grounded (a : Arena) : Prop :=
  ∀ (list : Nat) (items : List Nat), a.lists[list]? = some items →
    ∀ item ∈ items, ∀ node, a.nodes[item]? = some node → ∀ branch ∈ node.lists, branch < list

/-- An arena in which each list is a root or a branch of one if-block, and each node is loose or stands in one
list. The numbers that occur are those of the lists, and those of the nodes, each of them once. -/
structure Forest (a : Arena) (roots loose : List Nat) : Prop where
  lists : (roots ++ a.branches).Perm (List.range a.lists.size)
  nodes : (loose ++ a.items).Perm (List.range a.nodes.size)
  grounded : a.Grounded

end Arena

/-- The bodies of the events of a program, object by object. -/
def Program.bodies (p : Program) : List Nat := p.objects.flatMap fun o => o.events.map (·.body)

/-! ### reading back -/

/-- The script that begins with a node; `branch?` reads the branches of an if-block. -/
def Node.script? (branch? : Nat → Option Script) (rest : Script) : Node → Option Script
  | .act action => some (.act action rest)
  | .branch condition thens elses => do
    let thens ← branch? thens
    let elses ← branch? elses
    some (.branch condition thens elses rest)

namespace Arena

/-- Reads items back as a script. -/
def readItems? (a : Arena) (branch? : Nat → Option Script) : List Nat → Option Script
  | [] => some .done
  | n :: items => do
    let node ← a.nodes[n]?
    let rest ← a.readItems? branch? items
    node.script? branch? rest

/-- Reads a list back, as deep as a number of lists within each other. -/
def readWithin? (a : Arena) : Nat → Nat → Option Script
  | 0, _ => none
  | depth + 1, list => (a.lists[list]?).bind (a.readItems? (a.readWithin? depth))

/-- The script that a list reads back as. Branches are numbered before the list around them, so lists are
within each other no deeper than the number of the outermost. -/
def script? (a : Arena) (list : Nat) : Option Script := a.readWithin? (list + 1) list

variable {a : Arena}

/-- Items that stand for a script read back as it, if the branches among them read back. -/
private theorem Reads.readItems? {branch? : Nat → Option Script} {items : List Nat} {script : Script}
    (reads : Reads a items script)
    (branches : ∀ item ∈ items, ∀ node, a.nodes[item]? = some node → ∀ branch ∈ node.lists,
      ∀ inner, Holds a branch inner → branch? branch = some inner) :
    a.readItems? branch? items = some script := by
  induction reads with
  | done => rfl
  | act node _ ih =>
    have rest := ih fun item listed => branches item (List.mem_cons_of_mem _ listed)
    simp [Arena.readItems?, node, rest, Node.script?]
  | @branch n thenList elseList _ _ _ _ thens elses _ node thenFound thenReads elseFound elseReads _ _ _ ih =>
    -- the two branches are read as lists of their own, not as items of this one
    have first : branch? thenList = some thens :=
      branches n List.mem_cons_self _ node thenList (by simp [Node.lists]) _ ⟨_, thenFound, thenReads⟩
    have second : branch? elseList = some elses :=
      branches n List.mem_cons_self _ node elseList (by simp [Node.lists]) _ ⟨_, elseFound, elseReads⟩
    have rest := ih fun item listed => branches item (List.mem_cons_of_mem _ listed)
    simp [Arena.readItems?, node, rest, Node.script?, first, second]

private theorem Holds.readWithin? (grounded : a.Grounded) {depth list : Nat} {script : Script}
    (holds : Holds a list script) (deep : list < depth) : a.readWithin? depth list = some script := by
  induction depth generalizing list script with
  | zero => omega
  | succ depth ih =>
    obtain ⟨items, found, reads⟩ := holds
    simp only [Arena.readWithin?, found, Option.bind_some]
    apply reads.readItems?
    intro item listed node there branch named inner held
    have smaller := grounded list items found item listed node there branch named
    exact ih held (by omega)

/-- A list that stands for a script reads back as it. -/
theorem Holds.script? (grounded : a.Grounded) {list : Nat} {script : Script} (holds : Holds a list script) :
    a.script? list = some script :=
  holds.readWithin? grounded (Nat.lt_succ_self list)

/-! ### loose ends -/

namespace Forest

open scoped List

variable {roots loose : List Nat}

theorem empty : Forest .empty [] [] := ⟨.refl _, .refl _, by simp [Grounded, Arena.empty]⟩

/-- The order of the loose ends is of no account. -/
theorem perm {roots' loose' : List Nat} (forest : a.Forest roots loose) (sameRoots : roots'.Perm roots)
    (sameLoose : loose'.Perm loose) : a.Forest roots' loose' :=
  ⟨(sameRoots.append_right _).trans forest.lists, (sameLoose.append_right _).trans forest.nodes,
    forest.grounded⟩

/-- A number that a list holds is that of a node. -/
theorem item_lt (forest : a.Forest roots loose) {list item : Nat} {items : List Nat}
    (found : a.lists[list]? = some items) (listed : item ∈ items) : item < a.nodes.size := by
  have held : items ∈ a.lists.toList := List.mem_of_getElem? (by simpa using found)
  have among : item ∈ loose ++ a.items := List.mem_append_right _ (List.mem_flatten.mpr ⟨items, held, listed⟩)
  exact List.mem_range.mp (forest.nodes.mem_iff.mp among)

/-- A number that an if-block names is that of a list. -/
theorem branch_lt (forest : a.Forest roots loose) {item branch : Nat} {node : Node}
    (found : a.nodes[item]? = some node) (named : branch ∈ node.lists) : branch < a.lists.size := by
  have there : node ∈ a.nodes.toList := List.mem_of_getElem? (by simpa using found)
  have among : branch ∈ roots ++ a.branches :=
    List.mem_append_right _ (List.mem_flatMap.mpr ⟨node, there, named⟩)
  exact List.mem_range.mp (forest.lists.mem_iff.mp among)

/-- A new node names lists that were roots before, and is loose. -/
theorem addNode {node : Node} (forest : a.Forest (node.lists ++ roots) loose) :
    (a.addNode node).Forest roots (a.nodes.size :: loose) := by
  refine ⟨?_, ?_, ?_⟩
  · have named : (a.addNode node).branches = a.branches ++ node.lists := by simp [branches, Arena.addNode]
    calc roots ++ (a.addNode node).branches
      _ = (roots ++ a.branches) ++ node.lists := by rw [named, List.append_assoc]
      _ ~ node.lists ++ (roots ++ a.branches) := List.perm_append_comm
      _ ~ List.range a.lists.size := by rw [← List.append_assoc]; exact forest.lists
  · have more : List.range (a.addNode node).nodes.size = List.range a.nodes.size ++ [a.nodes.size] := by
      simp [Arena.addNode, List.range_succ]
    rw [more]
    exact (forest.nodes.cons _).trans (List.perm_append_singleton _ _).symm
  · intro list items found item listed old there
    -- an item of a list has a smaller number than the new node
    have before : item < a.nodes.size := forest.item_lt found listed
    have same : a.nodes[item]? = some old := by
      simpa [Arena.addNode, Array.getElem?_push, Nat.ne_of_lt before] using there
    exact forest.grounded list items found item listed old same

/-- A new list holds nodes that were loose before, and is a root. -/
theorem addList {items : List Nat} (forest : a.Forest roots (items ++ loose)) :
    (a.addList items).1.Forest ((a.addList items).2 :: roots) loose := by
  refine ⟨?_, ?_, ?_⟩
  · have more : List.range (a.addList items).1.lists.size = List.range a.lists.size ++ [a.lists.size] := by
      simp [Arena.addList, List.range_succ]
    rw [more]
    exact (forest.lists.cons _).trans (List.perm_append_singleton _ _).symm
  · have held : (a.addList items).1.items = a.items ++ items := by simp [Arena.items, Arena.addList]
    calc loose ++ (a.addList items).1.items
      _ = (loose ++ a.items) ++ items := by rw [held, List.append_assoc]
      _ ~ items ++ (loose ++ a.items) := List.perm_append_comm
      _ ~ List.range a.nodes.size := by rw [← List.append_assoc]; exact forest.nodes
  · intro list held found item listed node there branch named
    rcases Nat.lt_or_ge list a.lists.size with old | new
    · have same : a.lists[list]? = some held := by
        simpa [Arena.addList, Array.getElem?_push, Nat.ne_of_lt old] using found
      exact forest.grounded list held same item listed node there branch named
    · -- every list that an if-block names is numbered already
      exact Nat.lt_of_lt_of_le (forest.branch_lt there named) new

/-- The numbers of the items of a script are loose until they are put into a list. -/
theorem addItems (forest : a.Forest roots loose) (s : Script) :
    (a.addItems s).1.Forest roots ((a.addItems s).2 ++ loose) := by
  -- of an item and those after it, the item is numbered first, and loose while the others are numbered
  induction s generalizing a roots loose with
  | done => exact forest
  | act action rest ih =>
    have numbered : (a.addNode (.act action)).Forest roots (a.nodes.size :: loose) := forest.addNode
    exact (ih numbered).perm (.refl _) List.perm_middle.symm
  | branch condition thens elses rest ihThens ihElses ihRest =>
    rw [addItems_branch]
    dsimp only
    -- either branch becomes a root when it is laid out, and the if-block then names both
    have first := (ihThens forest).addList
    have second := (ihElses first).addList
    have both := second.perm (.swap _ _ _) (.refl _)
    have numbered := @addNode _ _ _ (.branch condition _ _) both
    exact (ihRest numbered).perm (.refl _) List.perm_middle.symm

/-- A script that is laid out adds a tree of its own. -/
theorem addScript (forest : a.Forest roots loose) (s : Script) :
    (a.addScript s).1.Forest ((a.addScript s).2 :: roots) loose :=
  (forest.addItems s).addList

end Forest

end Arena

/-! ### programs -/

namespace Program

variable {project : Project} {size : Vec Float32} {a b : Arena} {roots loose : List Nat}

theorem compileEvents_forest {events : List Event} {compiled : List CompiledEvent}
    (returned : compileEvents project a events = .ok (b, compiled)) (forest : a.Forest roots loose) :
    b.Forest (compiled.map (·.body) ++ roots) loose := by
  -- the lists of earlier events stay roots while later ones are laid out
  induction events generalizing a roots compiled with
  | nil => cases returned; exact forest
  | cons e es ih =>
    simp only [compileEvents, bind, Except.bind] at returned
    split at returned
    · cases returned
    · split at returned
      · cases returned
      next called =>
        cases returned
        exact (ih called (forest.addScript e.items)).perm List.perm_middle.symm (.refl _)

/-- Compiled objects have trees of their own, which are laid out beside those that were there. -/
theorem compileObjects_forest {objects : List ObjectDefinition} {compiled : List CompiledObject}
    (returned : compileObjects project size a objects = .ok (b, compiled)) (forest : a.Forest roots loose) :
    b.Forest ((compiled.flatMap fun o => o.events.map (·.body)) ++ roots) loose := by
  induction objects generalizing a roots compiled with
  | nil => cases returned; exact forest
  | cons o os ih =>
    simp only [compileObjects, bind, Except.bind] at returned
    split at returned
    · cases returned
    · split at returned
      · cases returned
      next compiledEvents =>
        split at returned
        · cases returned
        next called =>
          cases returned
          refine (ih called (compileEvents_forest compiledEvents forest)).perm ?_ (.refl _)
          rw [List.flatMap_cons, List.append_assoc]
          exact List.perm_append_comm_assoc _ _ _

/-- A program has no loose ends: the roots of its forest are the bodies of its events. -/
theorem compile_tied {program : Program} (compiled : compile project size = .ok program) :
    program.arena.Forest program.bodies [] := by
  simp only [compile, bind, Except.bind] at compiled
  split at compiled
  · cases compiled
  next called =>
    cases compiled
    exact (compileObjects_forest called .empty).perm (by simp [bodies]) (.refl _)

/-- The lists and nodes of a compiled program make up a forest. The bodies of the events and the branches of
the if-blocks are all lists that there are, each once; the items of the lists are all nodes that there are,
each once; and the branches of an if-block have smaller numbers than the list in which it stands. The body of
an event reads back as the script of that event, whatever was laid out before and after it. -/
theorem compile_forest {program : Program} (compiled : compile project size = .ok program) :
    program.arena.Forest program.bodies [] ∧
      ∀ object slot, (program.body? object slot).bind program.arena.script? = project.script? object slot := by
  have forest := compile_tied compiled
  refine ⟨forest, fun object slot => ?_⟩
  cases event : project.script? object slot with
  | some script =>
    obtain ⟨body, found, holds, _⟩ := compile_script compiled event
    rw [found, Option.bind_some, holds.script? forest.grounded]
  | none =>
    -- a body would come from an event of the document
    cases found : program.body? object slot with
    | none => rfl
    | some body =>
      obtain ⟨script, other, _⟩ := compile_body compiled found
      rw [event] at other
      cases other

end Program

/-! ### an example -/

/-- The condition that always holds. -/
def always : Condition := ⟨.literal (.bool true), .eq, .literal (.bool true)⟩

/-- What a guard does in a step: an if-block within another, with items before, within and after it. -/
def patrolScript : Script :=
  .branch always
    (.act (.changeScore (.literal (.number 1)))
      (.branch always
        (.act (.wait (.literal (.number 5))) (.act (.emitCustomEvent "bell") .done))
        (.act .destroySelf .done)
        (.act (.changeScore (.literal (.number 2))) .done)))
    .done
    (.act (.changeScore (.literal (.number 3))) .done)

/-- A guard on patrol, and a dog that leaves at the bell. -/
def patrolled : Project where
  version := 1
  declarations := []
  objects :=
    [⟨"guard", "Guard", none, some 1, some 1, false, [],
        [⟨.step, patrolScript⟩, ⟨.create, .act (.playSound "steps") .done⟩]⟩,
      ⟨"dog", "Dog", none, some 1, some 1, false, [],
        [⟨.custom "bell" (some "guard"), .branch always (.act .destroySelf .done) .done .done⟩]⟩]
  rooms := [⟨"yard", "Yard", 10, 10, [⟨"gate", "guard", 0, 0, none⟩, ⟨"hut", "dog", 5, 5, none⟩]⟩]
  sprites := []
  sounds := []

/-- The items of the outer branch, 0, 4 and 5, stand apart, as those of the inner if-block lie between. -/
def patrolProgram : Program where
  arena :=
    ⟨#[.act (.changeScore (.literal (.number 1))), .act (.wait (.literal (.number 5))),
        .act (.emitCustomEvent "bell"), .act .destroySelf, .branch always 0 1,
        .act (.changeScore (.literal (.number 2))), .branch always 2 3,
        .act (.changeScore (.literal (.number 3))), .act (.playSound "steps"), .act .destroySelf,
        .branch always 6 7],
      #[[1, 2], [3], [0, 4, 5], [], [6, 7], [8], [9], [], [10]]⟩
  objects :=
    [⟨"guard", "Guard", false, ⟨1, 1⟩, [], [⟨.step, 4⟩, ⟨.create, 5⟩]⟩,
      ⟨"dog", "Dog", false, ⟨1, 1⟩, [], [⟨.custom "bell" (some "guard"), 8⟩]⟩]

namespace Program

/-- The lists of the patrol are three bodies and six branches, and its trees read back as its scripts. -/
theorem compile_forest_patrolled :
    compile patrolled .zero = .ok patrolProgram ∧ patrolProgram.bodies = [4, 5, 8] ∧
      patrolProgram.arena.branches = [0, 1, 2, 3, 6, 7] ∧
      patrolProgram.arena.Forest patrolProgram.bodies [] ∧
      (patrolProgram.body? 0 0).bind patrolProgram.arena.script? = patrolled.script? 0 0 := by
  have compiled : compile patrolled .zero = .ok patrolProgram := by rfl
  obtain ⟨forest, reads⟩ := compile_forest compiled
  exact ⟨compiled, by decide, by decide, forest, reads 0 0⟩

example : patrolProgram.arena.script? 4 = some patrolScript := by rfl

end Program

end Gameplay
