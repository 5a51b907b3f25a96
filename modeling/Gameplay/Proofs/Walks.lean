import Gameplay.Proofs.Suspension
import Gameplay.Proofs.Trees

/-!
# Walks come to an end

A walk leaves and enters lists, so neither its frames nor its places only grow or shrink. What shrinks are the
nodes that it has ahead: those at and below the items that its frames have left.

## Main result

`walks_end`: from the frames of an event's start and of every wait that is held in a run, and in any world, a
walk comes to its end. It looks up only lists and nodes that exist, and takes only nodes that were ahead, each
of them at most once. What a wait keeps has none of these ahead any more.

## Proof strategy

`World.Walks` is a walk without a bound on its steps. One step takes the first of the nodes ahead, drops some
of the others with the branch that is not chosen, or leaves a frame (`Strode.ahead`), so twice the nodes ahead
and the frames together become fewer. The nodes ahead of a path are among those that the body covers
(`Path.ahead`), which are all different, as the arena is a forest.
-/

namespace Gameplay

/-! ### nodes ahead -/

namespace Arena

/-- The item that a walk takes next, if its innermost list is not at its end. -/
def next? (a : Arena) : List Frame → Option Nat
  | [] => none
  | frame :: _ => (a.list frame.list)[frame.next]?

/-- What a step of a walk looks up exists: the innermost list, and the node of the item that comes next. -/
def InRange (a : Arena) (frames : List Frame) : Prop :=
  (∀ frame ∈ frames.head?, frame.list < a.lists.size) ∧ ∀ item ∈ a.next? frames, item < a.nodes.size

/-- The nodes that frames have left: for each frame those at and below the items from its place on. -/
inductive Ahead (a : Arena) : List Frame → List Nat → Prop
  | done : Ahead a [] []
  | frame {frame : Frame} {outer : List Frame} {items here later : List Nat} :
      a.lists[frame.list]? = some items → Covers a (items.drop frame.next) here → Ahead a outer later →
      Ahead a (frame :: outer) (here ++ later)

/-- What a walk does with the nodes ahead of it, from the stacks that it passed to the frames that are left: it
looks up only what exists, and the nodes that it took and those that are left are some of the nodes ahead. -/
structure Consumes (a : Arena) (ahead : List Nat) (passed : List (List Frame)) (left : List Frame) : Prop where
  inRange : ∀ frames ∈ passed, a.InRange frames
  spares : ∃ rest, a.Ahead left rest ∧ (passed.filterMap a.next? ++ rest).Sublist ahead

variable {a : Arena} {frame : Frame} {outer : List Frame} {list next item : Nat} {nodes : List Nat}

/-- The items from a position on cover some of the nodes. -/
theorem Covers.drop {items : List Nat} (covers : Covers a items nodes) (passed : Nat) :
    ∃ rest, Covers a (items.drop passed) rest ∧ rest.Sublist nodes := by
  induction passed generalizing items nodes with
  | zero => exact ⟨nodes, covers, .refl _⟩
  | succ passed ih =>
    cases covers with
    | done => exact ⟨[], by simpa using Covers.done, .refl _⟩
    | act _ later =>
      obtain ⟨rest, covers, part⟩ := ih later
      exact ⟨rest, covers, part.cons _⟩
    | branch _ _ _ _ _ later =>
      obtain ⟨rest, covers, part⟩ := ih later
      exact ⟨rest, covers, (part.trans (List.sublist_append_right _ _)).cons _⟩

namespace Ahead

/-- Before an item, the nodes ahead begin with those at and below the items from it on. -/
private theorem at_item (ahead : Ahead a (⟨list, next⟩ :: outer) nodes)
    (found : (a.list list)[next]? = some item) :
    ∃ items here later, a.lists[list]? = some items ∧ Covers a (item :: items.drop (next + 1)) here ∧
      Ahead a outer later ∧ nodes = here ++ later := by
  cases ahead with
  | frame listed covers later =>
    rw [Arena.list, listed, Option.getD_some] at found
    obtain ⟨bound, rfl⟩ := List.getElem?_eq_some_iff.mp found
    rw [List.drop_eq_getElem_cons bound] at covers
    exact ⟨_, _, _, listed, covers, later, rfl⟩

/-- An action uses up the node that it stands at. -/
theorem act {action : Action} (ahead : Ahead a (⟨list, next⟩ :: outer) nodes)
    (found : (a.list list)[next]? = some item) (node : a.nodes[item]? = some (.act action)) :
    ∃ rest, Ahead a (⟨list, next + 1⟩ :: outer) rest ∧ nodes = item :: rest := by
  obtain ⟨items, here, later, listed, covers, outside, rfl⟩ := ahead.at_item found
  cases covers with
  | act _ below => exact ⟨_, .frame listed below outside, rfl⟩
  | branch other => rw [node] at other; cases other

/-- Of the two branches of an if-block only the chosen one stays ahead. -/
theorem enter {condition : Condition} {thens elses : Nat} (ahead : Ahead a (⟨list, next⟩ :: outer) nodes)
    (found : (a.list list)[next]? = some item) (node : a.nodes[item]? = some (.branch condition thens elses))
    (holds : Bool) :
    ∃ rest, Ahead a (⟨if holds then thens else elses, 0⟩ :: ⟨list, next + 1⟩ :: outer) rest ∧
      (item :: rest).Sublist nodes := by
  obtain ⟨items, here, later, listed, covers, outside, rfl⟩ := ahead.at_item found
  cases covers with
  | act other => rw [node] at other; cases other
  | branch other thenFound thenCovers elseFound elseCovers below =>
    rw [node] at other
    cases other
    have around : Ahead a (⟨list, next + 1⟩ :: outer) _ := .frame listed below outside
    cases holds with
    | true =>
      refine ⟨_, .frame thenFound thenCovers around, .cons_cons _ ?_⟩
      simp
    | false =>
      refine ⟨_, .frame elseFound elseCovers around, .cons_cons _ ?_⟩
      simp

/-- Further on in a list there is no more ahead than from its start. -/
theorem further (ahead : Ahead a (⟨list, 0⟩ :: outer) nodes) (next : Nat) :
    ∃ rest, Ahead a (⟨list, next⟩ :: outer) rest ∧ rest.Sublist nodes := by
  cases ahead with
  | frame listed covers later =>
    obtain ⟨here, dropped, part⟩ := covers.drop next
    exact ⟨_, .frame listed dropped later, part.append_right _⟩

/-- A list that is at its end is left without using up a node. -/
theorem leave (ahead : Ahead a (frame :: outer) nodes) (atEnd : (a.list frame.list)[frame.next]? = none) :
    Ahead a outer nodes := by
  cases ahead with
  | frame listed covers later =>
    rw [Arena.list, listed, Option.getD_some, List.getElem?_eq_none_iff] at atEnd
    rw [List.drop_eq_nil_of_le atEnd] at covers
    cases covers
    exact later

theorem node (ahead : Ahead a (⟨list, next⟩ :: outer) nodes) (found : (a.list list)[next]? = some item) :
    item < a.nodes.size := by
  obtain ⟨items, here, later, _, covers, _⟩ := ahead.at_item found
  cases covers with
  | act node _ => exact (Array.getElem?_eq_some_iff.mp node).1
  | branch node _ _ _ _ _ => exact (Array.getElem?_eq_some_iff.mp node).1

theorem inRange {frames : List Frame} (ahead : Ahead a frames nodes) : a.InRange frames := by
  cases ahead with
  | done => exact ⟨nofun, nofun⟩
  | @frame frame outer items _ _ listed covers later =>
    have whole : Ahead a (⟨frame.list, frame.next⟩ :: outer) _ := .frame listed covers later
    refine ⟨fun first head => ?_, fun item found => whole.node found⟩
    cases head
    exact (Array.getElem?_eq_some_iff.mp listed).1

end Ahead

namespace Consumes

variable {frames left : List Frame} {passed : List (List Frame)} {rest : List Nat}

private theorem taken_cons (a : Arena) (frames : List Frame) (passed : List (List Frame)) :
    (frames :: passed).filterMap a.next? = (a.next? frames).toList ++ passed.filterMap a.next? := by
  rw [List.filterMap_cons]
  cases a.next? frames <;> rfl

/-- One more stack is passed before the others. -/
theorem more (consumes : a.Consumes rest passed left) (ahead : a.Ahead frames nodes)
    (part : ((a.next? frames).toList ++ rest).Sublist nodes) : a.Consumes nodes (frames :: passed) left := by
  obtain ⟨inRange, spared, spares, within⟩ := consumes
  refine ⟨List.forall_mem_cons.mpr ⟨ahead.inRange, inRange⟩, spared, spares, ?_⟩
  rw [taken_cons, List.append_assoc]
  exact (within.append_left _).trans part

theorem last (later : a.Ahead left rest) (ahead : a.Ahead frames nodes)
    (part : ((a.next? frames).toList ++ rest).Sublist nodes) : a.Consumes nodes [frames] left := by
  have ended : a.Consumes rest [] left := ⟨nofun, rest, later, .refl _⟩
  exact ended.more ahead part

end Consumes

end Arena

/-! ### a walk as such -/

namespace World

variable {τ : Type} [Scalar τ] {v : Invocation} {w w' : World τ} {frames left : List Frame} {nodes : List Nat}

/-- A walk without a bound on its steps: the stacks that it passes, one for each step, and its end. -/
inductive Walks (v : Invocation) : World τ → List (List Frame) → World τ × Walk τ (List Frame) → Prop
  | last {w w' : World τ} {frames : List Frame} {walk : Walk τ (List Frame)} :
      w.stride v frames = (w', .stop walk) → Walks v w [frames] (w', walk)
  | next {w w' : World τ} {frames left : List Frame} {later : List (List Frame)}
      {ended : World τ × Walk τ (List Frame)} :
      w.stride v frames = (w', .on left) → Walks v w' (left :: later) ended →
      Walks v w (frames :: left :: later) ended

end World

/-- The frames that a walk leaves; only a wait keeps any. -/
def Walk.left {τ : Type} : Walk τ (List Frame) → List Frame
  | .suspended _ frames => frames
  | _ => []

namespace World

variable {τ : Type} [Scalar τ] {v : Invocation} {w w' : World τ} {frames left : List Frame} {nodes : List Nat}

/-- A step takes the item that comes next, and leaves some of the other nodes ahead. Two for each node ahead
and one for each frame become fewer. -/
theorem Strode.ahead (strode : Strode v w frames w' (.on left)) (ahead : w.program.arena.Ahead frames nodes) :
    ∃ rest, w.program.arena.Ahead left rest ∧
      ((w.program.arena.next? frames).toList ++ rest).Sublist nodes ∧
      2 * rest.length + left.length < 2 * nodes.length + frames.length := by
  cases strode with
  | leave atEnd =>
    refine ⟨nodes, ahead.leave atEnd, by simp [Arena.next?, atEnd], by simp⟩
  | skip found absent =>
    have there := ahead.node found
    rw [Array.getElem?_eq_none_iff] at absent
    omega
  | act found node acted =>
    obtain ⟨rest, later, rfl⟩ := ahead.act found node
    exact ⟨rest, later, by simp [Arena.next?, found], by simp⟩
  | enter holds found node looked =>
    obtain ⟨rest, later, part⟩ := ahead.enter found node holds
    have fewer := part.length_le
    simp only [List.length_cons] at fewer
    exact ⟨rest, later, by simpa [Arena.next?, found] using part, by simp only [List.length_cons]; omega⟩

/-- What a last step leaves, the item that it takes not among it, was ahead. -/
theorem Strode.ahead_stop {walk : Walk τ (List Frame)} (strode : Strode v w frames w' (.stop walk))
    (ahead : w.program.arena.Ahead frames nodes) :
    ∃ rest, w.program.arena.Ahead walk.left rest ∧
      ((w.program.arena.next? frames).toList ++ rest).Sublist nodes := by
  have alone : ∀ {item : Nat}, w.program.arena.next? frames = some item → item ∈ nodes →
      ((w.program.arena.next? frames).toList ++ []).Sublist nodes := by
    intro item found member
    simpa [found] using member
  cases strode with
  | done => exact ⟨[], .done, by simp [Arena.next?]⟩
  | suspend found node _ =>
    obtain ⟨rest, later, rfl⟩ := ahead.act found node
    exact ⟨rest, later, by simp [Arena.next?, found]⟩
  | halt found node _ | fail found node _ =>
    obtain ⟨rest, _, rfl⟩ := ahead.act found node
    exact ⟨[], .done, alone found List.mem_cons_self⟩
  | dangle found node _ =>
    obtain ⟨rest, _, part⟩ := ahead.enter found node true
    exact ⟨[], .done, alone found (part.subset List.mem_cons_self)⟩

/-- Within enough steps, a walk is the one that has no bound, and consumes nodes that were ahead. -/
theorem walkWithin_walks {steps : Nat} (ahead : w.program.arena.Ahead frames nodes)
    (enough : 2 * nodes.length + frames.length ≤ steps) :
    ∃ later, Walks v w (frames :: later) (walkWithin v steps frames w) ∧
      w.program.arena.Consumes nodes (frames :: later) (walkWithin v steps frames w).2.left := by
  -- each step leaves fewer nodes and frames together, so the steps that are left suffice for them
  induction steps generalizing frames nodes w with
  | zero =>
    cases ahead with
    | done => exact ⟨[], .last rfl, .last .done .done (.refl _)⟩
    | frame _ _ _ => simp at enough
  | succ steps ih =>
    rw [walkWithin_succ]
    split
    next w' left strode =>
      have step := stride_strode strode
      obtain ⟨rest, later, part, fewer⟩ := step.ahead ahead
      obtain ⟨passed, walks, consumes⟩ := ih (step.program ▸ later) (by omega)
      rw [step.program] at consumes
      exact ⟨left :: passed, .next strode walks, consumes.more ahead part⟩
    next w' walk strode =>
      obtain ⟨rest, later, part⟩ := (stride_strode strode).ahead_stop ahead
      exact ⟨[], .last strode, .last later ahead part⟩

end World

/-! ### the frames of a run -/

namespace Arena

variable {a : Arena} {body : Nat} {whole : List Nat}

/-- Along a path, what is ahead from the start of the innermost list on is part of the tree of the body. -/
private theorem Path.entered {frame : Frame} {outer : List Frame} (path : Path a body (frame :: outer))
    (tree : a.Ahead [⟨body, 0⟩] whole) :
    ∃ nodes, a.Ahead (⟨frame.list, 0⟩ :: outer) nodes ∧ nodes.Sublist whole := by
  generalize places : frame :: outer = frames at path
  -- from the event's list inward: each branch is entered from its place in the list around it
  induction path generalizing frame outer with
  | body => cases places; exact ⟨whole, tree, .refl _⟩
  | @branch list passed _ thens elses branch _ _ outer _ found node chosen _ ih =>
    cases places
    obtain ⟨nodes, around, part⟩ := ih rfl
    obtain ⟨before, reached, fewer⟩ := around.further passed
    obtain ⟨holds, rfl⟩ : ∃ holds : Bool, branch = if holds then thens else elses := by
      rcases chosen with rfl | rfl
      · exact ⟨true, rfl⟩
      · exact ⟨false, rfl⟩
    obtain ⟨rest, entered, left⟩ := reached.enter found node holds
    have below : rest.Sublist nodes := ((List.sublist_cons_self _ _).trans left).trans fewer
    exact ⟨rest, entered, below.trans part⟩

/-- What is ahead of a path is part of the tree of the body. -/
theorem Path.ahead {frames : List Frame} (path : Path a body frames) (tree : a.Ahead [⟨body, 0⟩] whole) :
    ∃ nodes, a.Ahead frames nodes ∧ nodes.Sublist whole := by
  cases frames with
  | nil => cases path
  | cons frame outer =>
    obtain ⟨nodes, entered, part⟩ := path.entered tree
    obtain ⟨rest, ahead, fewer⟩ := entered.further frame.next
    exact ⟨rest, ahead, fewer.trans part⟩

end Arena

/-- The tree of an event's body has each of its nodes once, and no more nodes than there are. -/
theorem Program.compile_tree {project : Project} {size : Vec Float32} {program : Program}
    (compiled : Program.compile project size = .ok program) {object slot body : Nat}
    (found : program.body? object slot = some body) :
    ∃ whole, program.arena.Ahead [⟨body, 0⟩] whole ∧ whole.Nodup ∧
      whole.length ≤ program.arena.nodes.size := by
  obtain ⟨script, _, ⟨items, listed, reads⟩, _⟩ := Program.compile_body compiled found
  obtain ⟨whole, covers⟩ := reads.covers
  have forest := Program.compile_tied compiled
  have distinct := forest.covers_nodup covers listed (.refl _)
  have few := forest.covers_length_le covers listed (.refl _)
  have tree : program.arena.Ahead [⟨body, 0⟩] (whole ++ []) := .frame listed covers .done
  rw [List.append_nil] at tree
  exact ⟨whole, tree, distinct, few⟩

/-- The worlds that a host brings about: those between its calls, and those inside the ticks that play. -/
inductive World.Arises {τ : Type} [Scalar τ] : World τ → Prop
  | between (settings : Settings) (calls : List (HostCall τ)) :
      Arises ((Game.new settings : Game τ).after calls).world
  | inside {settings : Settings} {calls : List (HostCall τ)} {delta : τ} {m : Moment τ} :
      ((Game.new settings : Game τ).after calls).Plays delta →
      Moment.Steps (.begin ((Game.new settings : Game τ).after calls).world delta) m → Arises m.world

theorem World.Arises.coherent {τ : Type} [Scalar τ] {w : World τ} (arises : w.Arises) : w.Coherent := by
  cases arises with
  | between settings calls => exact Game.after_coherent settings calls
  | inside _ steps => exact (Moment.steps_coherent (Game.after_coherent _ _) steps).world

/-- The frames from which an event may be walked: those of its start, and those of its waits in the worlds
that a host brings about. -/
inductive Program.Walkable (τ : Type) [Scalar τ] (p : Program) (object slot : Nat) : List Frame → Prop
  | start {body : Nat} : p.body? object slot = some body → Walkable τ p object slot [⟨body, 0⟩]
  | resume {w : World τ} {i : Instance τ} {wait : Wait τ} : w.Arises → w.program = p → i ∈ w.instances →
      i.object = object → wait ∈ i.waits → wait.slot = slot → Walkable τ p object slot wait.frames

theorem Program.Walkable.path {τ : Type} [Scalar τ] {p : Program} {object slot : Nat} {frames : List Frame}
    (walkable : p.Walkable τ object slot frames) :
    ∃ body, p.body? object slot = some body ∧ p.arena.Path body frames := by
  cases walkable with
  | start found => exact ⟨_, found, .body (Nat.zero_le _)⟩
  | resume arises same present sameObject held sameSlot =>
    obtain ⟨body, found, path⟩ := ((arises.coherent.instances _ present).waits _ held).path
    rw [same, sameObject, sameSlot] at found
    exact ⟨body, found, same ▸ path⟩

/-- The body of an event has a tree in which all nodes are different. From frames at which the event may be
walked some of them are ahead, and in any world a walk comes to its end, the one that `World.walk` comes to.
It looks up only lists and nodes that exist. The nodes that it takes, with those that it leaves ahead at a wait,
are among those that were ahead, so it takes each at most once. -/
theorem World.walks_end {τ : Type} [Scalar τ] {project : Project} {size : Vec Float32} {program : Program}
    (compiled : Program.compile project size = .ok program) {object slot body : Nat}
    (found : program.body? object slot = some body) :
    ∃ whole, program.arena.Ahead [⟨body, 0⟩] whole ∧ whole.Nodup ∧
      ∀ frames, program.Walkable τ object slot frames →
        ∃ ahead, program.arena.Ahead frames ahead ∧ ahead.Sublist whole ∧
          ∀ (w : World τ) (v : Invocation), w.program = program →
            ∃ later, Walks v w (frames :: later) (w.walk v frames) ∧
              program.arena.Consumes ahead (frames :: later) (w.walk v frames).2.left ∧
              ((frames :: later).filterMap program.arena.next?).Nodup := by
  obtain ⟨whole, tree, distinct, few⟩ := Program.compile_tree compiled found
  refine ⟨whole, tree, distinct, fun frames walkable => ?_⟩
  obtain ⟨other, same, path⟩ := walkable.path
  rw [found] at same
  cases same
  obtain ⟨ahead, spare, part⟩ := path.ahead tree
  refine ⟨ahead, spare, part, ?_⟩
  rintro w v rfl
  -- the steps that a walk has suffice for the nodes ahead, as they are no more than there are
  have enough : 2 * ahead.length + frames.length ≤ w.program.steps frames := by
    have fewer := part.length_le
    simp only [Program.steps]
    omega
  obtain ⟨later, walks, consumes⟩ := walkWithin_walks spare enough
  refine ⟨later, walks, consumes, ?_⟩
  obtain ⟨_, rest, _, within⟩ := consumes
  exact (((List.sublist_append_left _ rest).trans within).trans part).nodup distinct

/-- The guard waits in the inner if-block. Its bell, the end of the outer branch and the end of the patrol are
ahead of it then. -/
theorem World.walks_end_patrolled :
    let frames : List Frame := [⟨0, 1⟩, ⟨2, 2⟩, ⟨4, 1⟩]
    Program.compile patrolled .zero = .ok patrolProgram ∧ patrolProgram.body? 0 0 = some 4 ∧
      patrolProgram.Walkable Float 0 0 frames ∧ patrolProgram.arena.Ahead frames [2, 5, 7] ∧
      ∃ ahead, patrolProgram.arena.Ahead frames ahead ∧
        ∀ (w : World Float) (v : Invocation), w.program = patrolProgram →
          ∃ later, Walks v w (frames :: later) (w.walk v frames) ∧
            patrolProgram.arena.Consumes ahead (frames :: later) (w.walk v frames).2.left ∧
            ((frames :: later).filterMap patrolProgram.arena.next?).Nodup := by
  intro frames
  have compiled : Program.compile patrolled .zero = .ok patrolProgram := by rfl
  -- a wait that is held in a game gives the frames
  have walkable : patrolProgram.Walkable Float 0 0 [⟨0, 1⟩, ⟨2, 2⟩, ⟨4, 1⟩] := by
    have arises : ((Game.new .default : Game Float).after [.start patrolled "yard", .tick 16]).world.Arises :=
      .between .default [.start patrolled "yard", .tick 16]
    have program : ((Game.new .default : Game Float).after
        [.start patrolled "yard", .tick 16]).world.program = patrolProgram := by decide +kernel
    have waiting : ∃ i ∈ ((Game.new .default : Game Float).after
        [.start patrolled "yard", .tick 16]).world.instances, i.object = 0 ∧
          ∃ wait ∈ i.waits, wait.slot = 0 ∧ wait.frames = [⟨0, 1⟩, ⟨2, 2⟩, ⟨4, 1⟩] := by decide +kernel
    obtain ⟨i, present, object, wait, held, slot, same⟩ := waiting
    exact same ▸ .resume arises program present object held slot
  have ahead : patrolProgram.arena.Ahead [⟨0, 1⟩, ⟨2, 2⟩, ⟨4, 1⟩] ([2] ++ ([5] ++ ([7] ++ []))) :=
    .frame rfl (.act rfl .done) (.frame rfl (.act rfl .done) (.frame rfl (.act rfl .done) .done))
  obtain ⟨_, _, _, walks⟩ := @walks_end Float _ _ _ _ compiled 0 0 4 rfl
  obtain ⟨nodes, spare, _, ends⟩ := walks _ walkable
  exact ⟨compiled, rfl, walkable, ahead, nodes, spare, ends⟩

end Gameplay
