import Gameplay.Proofs.Layout
import Gameplay.Proofs.Places

/-!
# Walks and scripts

A walk goes through the flat lists of a compiled program. `World.play` goes through the script itself,
by recursion on the script, and says what is left at a wait as scripts. The two are equal.

## Main result

`start_agrees`: an invocation has the effect of playing the script of its event, and what a wait keeps
has, from any later world, the effect of playing the scripts that are left.

## Proof strategy

Each frame of a walk stands for the script that is left of its list (`Arena.Stands`). One step of a walk
either ends it as the scripts end, or leads to frames that stand for scripts with the same effect and a
smaller cost (`Strode.plays`). The cost of the scripts along a path is within the steps that a walk has
(`Path.cost_le`), so a walk never runs out of steps.
-/

namespace Gameplay

/-! ### scripts -/

namespace World

variable {τ : Type} [Scalar τ]

/-- Goes on with what follows, if what was played came to its end. At a wait, `outer` is left as well. -/
def playThen (outer : List Script) (next : World τ → World τ × Walk τ (List Script)) :
    World τ × Walk τ (List Script) → World τ × Walk τ (List Script)
  | (w, .finished) => next w
  | (w, .suspended duration left) => (w, .suspended duration (left ++ outer))
  | (w, .halted) => (w, .halted)
  | (w, .failed cause) => (w, .failed cause)

/-- Plays a script item by item. The condition of an if-block is evaluated once, one of its branches is
played, and then the items after it. A wait leaves the items after it, and then those after each if-block
around it, outward. -/
def play (v : Invocation) : Script → World τ → World τ × Walk τ (List Script)
  | .done, w => (w, .finished)
  | .act action rest, w =>
    match w.act v action with
    | (w, .next) => play v rest w
    | (w, .suspend duration) => (w, .suspended duration [rest])
    | (w, .halt) => (w, .halted)
    | (w, .fail cause) => (w, .failed cause)
  | .branch condition thens elses rest, w =>
    match w.holds v.actor condition with
    | .error cause => (w, .failed cause)
    | .ok true => playThen [rest] (play v rest) (play v thens w)
    | .ok false => playThen [rest] (play v rest) (play v elses w)

/-- Plays scripts one after the other. -/
def playAll (v : Invocation) : List Script → World τ → World τ × Walk τ (List Script)
  | [], w => (w, .finished)
  | script :: outer, w => playThen outer (playAll v outer) (play v script w)

/-- What follows a branch follows the if-block. -/
theorem playThen_assoc (v : Invocation) (rest : Script) (outer : List Script)
    (played : World τ × Walk τ (List Script)) :
    playThen outer (playAll v outer) (playThen [rest] (play v rest) played) =
      playThen (rest :: outer) (playAll v (rest :: outer)) played := by
  obtain ⟨w, walk⟩ := played
  cases walk with
  | finished => rfl
  | suspended duration left => simp only [playThen, List.append_assoc, List.singleton_append]
  | halted => rfl
  | failed cause => rfl

end World

/-! ### what frames stand for -/

namespace Arena

variable {a : Arena}

/-- A frame stands for the script that is left of its list. -/
def Stands (a : Arena) (frame : Frame) (script : Script) : Prop :=
  Reads a ((a.list frame.list).drop frame.next) script

/-- A frame stands for one rest of a script. -/
theorem Stands.unique {frame : Frame} {s t : Script} (left : Stands a frame s)
    (right : Stands a frame t) : s = t :=
  Reads.unique left right

/-- A list that stands for a script stands for it from its first item on. -/
theorem Holds.stands {list : Nat} {script : Script} (holds : Holds a list script) :
    Stands a ⟨list, 0⟩ script := by
  obtain ⟨items, found, reads⟩ := holds
  simpa [Stands, Arena.list, found] using reads

/-- At its end a list stands for nothing. -/
theorem Stands.done {frame : Frame} {script : Script} (stands : Stands a frame script)
    (atEnd : (a.list frame.list)[frame.next]? = none) : script = .done := by
  have past : (a.list frame.list).length ≤ frame.next := List.getElem?_eq_none_iff.mp atEnd
  rw [Stands, List.drop_eq_nil_of_le past] at stands
  cases stands
  rfl

/-- Otherwise the next item and those after it make up what the frame stands for. -/
private theorem Stands.reads {list next item : Nat} {script : Script}
    (stands : Stands a ⟨list, next⟩ script) (found : (a.list list)[next]? = some item) :
    Reads a (item :: (a.list list).drop (next + 1)) script := by
  obtain ⟨bound, rfl⟩ := List.getElem?_eq_some_iff.mp found
  rwa [Stands, List.drop_eq_getElem_cons bound] at stands

/-- An action at the next item is the first item of the script. -/
theorem Stands.act {list next item : Nat} {script : Script} {action : Action}
    (stands : Stands a ⟨list, next⟩ script) (found : (a.list list)[next]? = some item)
    (node : a.nodes[item]? = some (.act action)) :
    ∃ rest, script = .act action rest ∧ Stands a ⟨list, next + 1⟩ rest := by
  cases stands.reads found with
  | act node' rest =>
    rw [node] at node'
    cases node'
    exact ⟨_, rfl, rest⟩
  | branch node' => rw [node] at node'; cases node'

/-- An if-block at the next item is the first item of the script. -/
theorem Stands.branch {list next item thenList elseList : Nat} {script : Script}
    {condition : Condition} (stands : Stands a ⟨list, next⟩ script)
    (found : (a.list list)[next]? = some item)
    (node : a.nodes[item]? = some (.branch condition thenList elseList)) :
    ∃ thens elses rest, script = .branch condition thens elses rest ∧ Holds a thenList thens ∧
      Holds a elseList elses ∧ Stands a ⟨list, next + 1⟩ rest := by
  cases stands.reads found with
  | act node' => rw [node] at node'; cases node'
  | branch node' thenFound thens elseFound elses rest =>
    rw [node] at node'
    cases node'
    exact ⟨_, _, _, rfl, ⟨_, thenFound, thens⟩, ⟨_, elseFound, elses⟩, rest⟩

theorem Stands.node {list next item : Nat} {script : Script} (stands : Stands a ⟨list, next⟩ script)
    (found : (a.list list)[next]? = some item) : a.nodes[item]? ≠ none := by
  intro absent
  cases stands.reads found with
  | act node _ => rw [absent] at node; cases node
  | branch node _ _ _ _ _ => rw [absent] at node; cases node

end Arena

/-- The same end of a walk. At a wait, the frames stand for the scripts that are left. -/
inductive Walk.Stands {τ : Type} (a : Arena) : Walk τ (List Frame) → Walk τ (List Script) → Prop
  | finished : Walk.Stands a .finished .finished
  | suspended {duration : τ} {frames : List Frame} {rests : List Script} :
      List.Forall₂ a.Stands frames rests →
      Walk.Stands a (.suspended duration frames) (.suspended duration rests)
  | halted : Walk.Stands a .halted .halted
  | failed {cause : Dangling} : Walk.Stands a (.failed cause) (.failed cause)

/-- How many steps a walk takes at most for the scripts that its frames stand for. -/
def Script.cost : List Script → Nat
  | [] => 0
  | script :: outer => 2 * script.size + 1 + cost outer

/-! ### a step of a walk -/

namespace World

variable {τ : Type} [Scalar τ] {v : Invocation} {w w' : World τ} {frames : List Frame}
  {rests : List Script}

/-- A step that goes on leads to frames that stand for scripts with the same effect, and costs. -/
theorem Strode.plays {left : List Frame} (strode : Strode v w frames w' (.on left))
    (stands : List.Forall₂ w.program.arena.Stands frames rests) :
    ∃ later, List.Forall₂ w.program.arena.Stands left later ∧
      playAll v rests w = playAll v later w' ∧ Script.cost later < Script.cost rests := by
  cases strode with
  | leave atEnd =>
    cases stands with
    | cons head tail =>
      rw [head.done atEnd]
      exact ⟨_, tail, rfl, by simp only [Script.cost]; omega⟩
  | skip found absent =>
    cases stands with
    | cons head tail => exact absurd absent (head.node found)
  | act found node acted =>
    cases stands with
    | cons head tail =>
      obtain ⟨rest, rfl, next⟩ := head.act found node
      refine ⟨rest :: _, .cons next tail, ?_, ?_⟩
      · simp only [playAll, play, acted]
      · simp only [Script.cost, Script.size]; omega
  | enter holds found node looked =>
    cases stands with
    | cons head tail =>
      -- the branch is put before what is left of the list, as `play` puts it
      obtain ⟨thens, elses, rest, rfl, thenHeld, elseHeld, next⟩ := head.branch found node
      cases holds with
      | true =>
        refine ⟨thens :: rest :: _, .cons thenHeld.stands (.cons next tail), ?_, ?_⟩
        · simp only [playAll, play, looked, playThen_assoc]
        · simp only [Script.cost, Script.size]; omega
      | false =>
        refine ⟨elses :: rest :: _, .cons elseHeld.stands (.cons next tail), ?_, ?_⟩
        · simp only [playAll, play, looked, playThen_assoc]
        · simp only [Script.cost, Script.size]; omega

/-- A step that ends a walk ends it as the scripts end. -/
theorem Strode.plays_stop {walk : Walk τ (List Frame)} (strode : Strode v w frames w' (.stop walk))
    (stands : List.Forall₂ w.program.arena.Stands frames rests) :
    ∃ played, playAll v rests w = (w', played) ∧ Walk.Stands w.program.arena walk played := by
  -- each way to stop is read off the document's own clause for the node
  cases strode with
  | done => cases stands; exact ⟨_, rfl, .finished⟩
  | suspend found node acted =>
    cases stands with
    | cons head tail =>
      obtain ⟨rest, rfl, next⟩ := head.act found node
      exact ⟨_, by simp only [playAll, play, acted, playThen, List.singleton_append],
        .suspended (.cons next tail)⟩
  | halt found node acted =>
    cases stands with
    | cons head tail =>
      obtain ⟨rest, rfl, _⟩ := head.act found node
      exact ⟨_, by simp only [playAll, play, acted, playThen], .halted⟩
  | fail found node acted =>
    cases stands with
    | cons head tail =>
      obtain ⟨rest, rfl, _⟩ := head.act found node
      exact ⟨_, by simp only [playAll, play, acted, playThen], .failed⟩
  | dangle found node looked =>
    cases stands with
    | cons head tail =>
      obtain ⟨thens, elses, rest, rfl, _⟩ := head.branch found node
      exact ⟨_, by simp only [playAll, play, looked, playThen], .failed⟩

/-- Within enough steps, a walk ends as the scripts end that its frames stand for. -/
theorem walkWithin_plays {steps : Nat} (enough : Script.cost rests ≤ steps)
    (stands : List.Forall₂ w.program.arena.Stands frames rests) :
    ∃ walk, walkWithin v steps frames w = ((playAll v rests w).1, walk) ∧
      Walk.Stands w.program.arena walk (playAll v rests w).2 := by
  -- each step costs, so the steps that are left still suffice for the scripts that are left
  induction steps generalizing frames rests w with
  | zero =>
    cases stands with
    | nil => exact ⟨_, rfl, .finished⟩
    | cons head tail => simp only [Script.cost] at enough; omega
  | succ steps ih =>
    rw [walkWithin_succ]
    split
    next w' left strode =>
      have step := stride_strode strode
      obtain ⟨later, standing, same, cheaper⟩ := step.plays stands
      have kept : w'.program.arena = w.program.arena := by rw [step.program]
      rw [same]
      exact kept ▸ ih (by omega) (kept ▸ standing)
    next w' walk strode =>
      obtain ⟨played, same, ended⟩ := (stride_strode strode).plays_stop stands
      rw [same]
      exact ⟨walk, rfl, ended⟩

end World

/-! ### the steps of a walk suffice -/

/-- How many items scripts have together. -/
def Script.total : List Script → Nat
  | [] => 0
  | script :: outer => script.size + total outer

private theorem Script.cost_eq (rests : List Script) : cost rests = 2 * total rests + rests.length := by
  induction rests with
  | nil => rfl
  | cons script outer ih => simp only [cost, total, List.length_cons, ih]; omega

namespace Arena

variable {a : Arena}

/-- The items from a position on stand for a part of the script. -/
private theorem Reads.drop {items : List Nat} {script : Script} (reads : Reads a items script)
    (passed : Nat) : ∃ rest, Reads a (items.drop passed) rest ∧ rest.Part script := by
  induction passed generalizing items script with
  | zero => exact ⟨script, reads, .whole⟩
  | succ passed ih =>
    cases reads with
    | done => exact ⟨.done, by simpa using Reads.done, .whole⟩
    | act node rest =>
      obtain ⟨left, reads, part⟩ := ih rest
      exact ⟨left, reads, .act part⟩
    | branch node _ _ _ _ rest =>
      obtain ⟨left, reads, part⟩ := ih rest
      exact ⟨left, reads, .rest part⟩

/-- A frame in a list stands for a part of the script of that list. -/
theorem Holds.stands_at {list : Nat} {script : Script} (holds : Holds a list script) (next : Nat) :
    ∃ rest, Stands a ⟨list, next⟩ rest ∧ rest.Part script := by
  obtain ⟨items, found, reads⟩ := holds
  have same : a.list list = items := by simp [Arena.list, found]
  obtain ⟨rest, reads, part⟩ := reads.drop next
  exact ⟨rest, by simpa only [Stands, same] using reads, part⟩

/-- Along a path, the script of the innermost list is a part of the script of the event. Together with
what is left of the lists around it, it is no larger. -/
private theorem Path.innermost {body : Nat} {script : Script} {frame : Frame} {outer : List Frame}
    (path : Path a body (frame :: outer)) (holds : Holds a body script) :
    ∃ whole rests, Holds a frame.list whole ∧ List.Forall₂ (Stands a) outer rests ∧
      whole.Part script ∧ whole.size + Script.total rests ≤ script.size := by
  generalize places : frame :: outer = frames at path
  -- from the event's list inward: the branch that is chosen and what follows the if-block are parts of
  -- the list around them
  induction path generalizing frame outer with
  | body => cases places; exact ⟨script, [], holds, .nil, .whole, by simp [Script.total]⟩
  | branch around found node chosen _ ih =>
    cases places
    obtain ⟨whole, rests, held, standing, part, bound⟩ := ih rfl
    obtain ⟨passed, stands, left⟩ := held.stands_at _
    obtain ⟨thens, elses, rest, rfl, thenHeld, elseHeld, next⟩ := stands.branch found node
    have smaller := left.size_le
    simp only [Script.size] at smaller
    rcases chosen with rfl | rfl
    · exact ⟨thens, rest :: rests, thenHeld, .cons next standing, (Script.Part.thens .whole).trans
        (left.trans part), by simp only [Script.total]; omega⟩
    · exact ⟨elses, rest :: rests, elseHeld, .cons next standing, (Script.Part.elses .whole).trans
        (left.trans part), by simp only [Script.total]; omega⟩

/-- The frames of a path stand for scripts, which are no larger together than that of the event. -/
theorem Path.stands {body : Nat} {script : Script} {frames : List Frame} (path : Path a body frames)
    (holds : Holds a body script) :
    ∃ rests, List.Forall₂ (Stands a) frames rests ∧ Script.total rests ≤ script.size := by
  cases frames with
  | nil => cases path
  | cons frame outer =>
    obtain ⟨whole, rests, held, standing, _, bound⟩ := path.innermost holds
    obtain ⟨rest, stands, part⟩ := held.stands_at frame.next
    have smaller := part.size_le
    exact ⟨rest :: rests, .cons stands standing, by simp only [Script.total]; omega⟩

/-- The innermost frame of a path stands for a part of the script of the event. -/
theorem Path.part {body : Nat} {script : Script} {frame : Frame} {outer : List Frame}
    (path : Path a body (frame :: outer)) (holds : Holds a body script) :
    ∃ rest, Stands a frame rest ∧ rest.Part script := by
  obtain ⟨whole, _, held, _, part, _⟩ := path.innermost holds
  obtain ⟨rest, stands, left⟩ := held.stands_at frame.next
  exact ⟨rest, stands, left.trans part⟩

/-- What the frames of a path stand for costs no more steps than a walk has. -/
theorem Path.cost_le {program : Program} {body : Nat} {script : Script} {frames : List Frame}
    {rests : List Script} (path : Path program.arena body frames)
    (holds : Holds program.arena body script) (small : script.size ≤ program.arena.nodes.size)
    (standing : List.Forall₂ (Stands program.arena) frames rests) :
    Script.cost rests ≤ program.steps frames := by
  obtain ⟨others, stands, bound⟩ := path.stands holds
  -- frames stand for one list of scripts only, so the bound holds for the given one
  have unique : Relator.RightUnique (Stands program.arena) := fun _ _ _ left right => left.unique right
  have same : others = rests := List.right_unique_forall₂' unique stands standing
  have counted : frames.length = rests.length := standing.length_eq
  rw [Script.cost_eq, Program.steps, ← same]
  rw [← same] at counted
  omega

end Arena

/-! ### invocations -/

/-- What a wait of an event keeps: frames on a path of the event, and the scripts that they stand for. -/
structure Program.Leaves (p : Program) (object slot : Nat) (frames : List Frame)
    (rests : List Script) : Prop where
  path : ∃ body, p.body? object slot = some body ∧ p.arena.Path body frames
  stands : List.Forall₂ p.arena.Stands frames rests

namespace World

variable {τ : Type} [Scalar τ]

/-- An invocation played what its scripts play. If they wait, it is parked with frames for the scripts
that are left. -/
inductive Agrees (p : Program) (v : Invocation) : Played τ → World τ × Walk τ (List Script) → Prop
  | finished {w : World τ} : Agrees p v ⟨w, .finished⟩ (w, .finished)
  | suspended {w : World τ} {duration : τ} {frames : List Frame} {rests : List Script} :
      p.Leaves v.object v.slot frames rests →
      Agrees p v ⟨w.park v duration frames, .finished⟩ (w, .suspended duration rests)
  | halted {w : World τ} : Agrees p v ⟨w, .halted⟩ (w, .halted)
  | failed {w : World τ} {cause : Dangling} : Agrees p v ⟨w, .failed cause⟩ (w, .failed cause)

/-- Frames on a path of an event have the effect of the scripts that they stand for. -/
theorem proceed_agrees {w : World τ} {v : Invocation} {body : Nat} {script : Script}
    {frames : List Frame} {rests : List Script}
    (found : w.program.body? v.object v.slot = some body) (holds : w.program.arena.Holds body script)
    (small : script.size ≤ w.program.arena.nodes.size) (path : w.program.arena.Path body frames)
    (stands : List.Forall₂ w.program.arena.Stands frames rests) :
    Agrees w.program v (w.proceed v frames) (w.playAll v rests) := by
  -- the steps allowed for the path are enough for the whole walk
  have enough := path.cost_le holds small stands
  obtain ⟨walk, walked, ended⟩ := walkWithin_plays (v := v) enough stands
  have kept := walkWithin_program v (w.program.steps frames) frames w
  rw [walked] at kept
  generalize playAll v rests w = played at walked ended kept ⊢
  obtain ⟨w', played⟩ := played
  simp only [proceed, World.walk, walked]
  cases ended with
  | finished => exact .finished
  | suspended left =>
    refine .suspended ⟨⟨body, found, ?_⟩, left⟩
    rw [← kept]
    exact kept ▸ walkWithin_path walked (.inr path)
  | halted => exact .halted
  | failed => exact .failed

/-- An invocation of an event has the effect of its script, and later, from any world, what a wait keeps
has the effect of what the script has left: the items after the wait, then those after each if-block
around it, outward. -/
theorem start_agrees {project : Project} {size : Vec Float32} {program : Program}
    {object slot : Nat} {script : Script} (compiled : Program.compile project size = .ok program)
    (event : project.script? object slot = some script) :
    (∀ (w : World τ) (v : Invocation), w.program = program → v.object = object → v.slot = slot →
      Agrees program v (w.start v) ((w.note (.started v)).play v script)) ∧
    ∀ (frames : List Frame) (rests : List Script), program.Leaves object slot frames rests →
      ∀ (w : World τ) (v : Invocation), w.program = program → v.object = object → v.slot = slot →
        Agrees program v (w.proceed v frames) (w.playAll v rests) := by
  obtain ⟨body, found, holds, small⟩ := Program.compile_script compiled event
  constructor
  · rintro w v rfl rfl rfl
    have whole : List.Forall₂ w.program.arena.Stands [⟨body, 0⟩] [script] := .cons holds.stands .nil
    have agrees := proceed_agrees (w := w.note (.started v)) found holds small
      (.body (Nat.zero_le _)) whole
    -- one script is played as a list of one
    have single : playAll v [script] (w.note (.started v)) = play v script (w.note (.started v)) := by
      simp only [playAll]
      generalize play v script (w.note (.started v)) = played
      obtain ⟨w', walk⟩ := played
      cases walk with
      | finished => rfl
      | suspended duration left => simp only [playThen, List.append_nil]
      | halted => rfl
      | failed cause => rfl
    simp only [start, found, ← single]
    exact agrees
  · rintro frames rests ⟨⟨other, same, path⟩, stands⟩ w v rfl rfl rfl
    rw [found] at same
    cases same
    exact proceed_agrees found holds small path stands

/-- The nap of the cat: what a step plays, and what it goes on with after the nap. -/
theorem start_agrees_nap :
    let w : World Float := { World.initial .default (.ofSeed 0) with program := napProgram }
    let v : Invocation := ⟨1, 0, 0, none⟩
    Agrees napProgram v (w.start v) ((w.note (.started v)).play v napScript) ∧
    Agrees napProgram v (w.proceed v [⟨0, 1⟩, ⟨2, 1⟩])
      (w.playAll v [.done, .act (.changeScore (.literal (.number 1))) .done]) := by
  intro w v
  have both := @start_agrees Float _ napping .zero napProgram 0 0 napScript rfl rfl
  refine ⟨both.1 w v rfl rfl rfl, both.2 _ _ ⟨⟨2, rfl, ?_⟩, ?_⟩ w v rfl rfl rfl⟩
  · exact .branch (.body (by decide)) rfl rfl (.inl rfl) (by decide)
  · refine .cons Arena.Reads.done (.cons ?_ .nil)
    exact Arena.Reads.act rfl .done

end World

end Gameplay
