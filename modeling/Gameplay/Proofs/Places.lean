import Gameplay.Invocation
import Gameplay.Proofs.Effects

/-!
# Places in a program

A walk keeps a stack of places: where it stands in an event's list, and where it stands in each branch
that it has entered since. `Arena.Path` describes those stacks, and `World.stride` is one step of a walk.

## Main results

`Strode.path` and `walkWithin_path`: a walk that starts on a path of an event stays on paths of that
event, and so does what a wait leaves.
-/

namespace Gameplay

/-- The stacks of places, innermost first, that a walk through an event's list can have. The outermost
place is in that list; every other is in a branch of the if-block just passed in the place around it. -/
inductive Arena.Path (a : Arena) (body : Nat) : List Frame → Prop
  | body {next : Nat} : next ≤ (a.list body).length → Path a body [⟨body, next⟩]
  | branch {list passed item thens elses chosen next : Nat} {condition : Condition}
      {outer : List Frame} :
      Path a body (⟨list, passed + 1⟩ :: outer) → (a.list list)[passed]? = some item →
      a.nodes[item]? = some (.branch condition thens elses) → chosen = thens ∨ chosen = elses →
      next ≤ (a.list chosen).length →
      Path a body (⟨chosen, next⟩ :: ⟨list, passed + 1⟩ :: outer)

namespace Arena.Path

variable {a : Arena} {body : Nat}

/-- To pass an item stays on the path. -/
theorem pass {list next item : Nat} {outer : List Frame} (path : Path a body (⟨list, next⟩ :: outer))
    (found : (a.list list)[next]? = some item) : Path a body (⟨list, next + 1⟩ :: outer) := by
  have bound : next < (a.list list).length := (List.getElem?_eq_some_iff.mp found).1
  cases path with
  | body => exact .body bound
  | branch around block node chosen _ => exact .branch around block node chosen bound

/-- To leave a list goes back to the path around it. -/
theorem leave {frame : Frame} {outer : List Frame} (path : Path a body (frame :: outer)) :
    outer = [] ∨ Path a body outer := by
  cases path with
  | body => exact .inl rfl
  | branch around => exact .inr around

end Arena.Path

/-- What one step of a walk comes to: the stack to go on from, or the end of the walk. -/
inductive Stride (τ : Type)
  | on (frames : List Frame)
  | stop (walk : Walk τ (List Frame))

namespace World

variable {τ : Type} [Scalar τ]

/-- One step of a walk: leave a list that is at its end, or take an item. -/
def stride (w : World τ) (v : Invocation) : List Frame → World τ × Stride τ
  | [] => (w, .stop .finished)
  | frame :: outer =>
    match (w.program.arena.list frame.list)[frame.next]? with
    | none => (w, .on outer)
    | some item =>
      let frames := { frame with next := frame.next + 1 } :: outer
      match w.program.arena.nodes[item]? with
      | none => (w, .on frames)
      | some (.act action) =>
        match w.act v action with
        | (w, .next) => (w, .on frames)
        | (w, .suspend duration) => (w, .stop (.suspended duration frames))
        | (w, .halt) => (w, .stop .halted)
        | (w, .fail cause) => (w, .stop (.failed cause))
      | some (.branch condition thens elses) =>
        match w.holds v.actor condition with
        | .error cause => (w, .stop (.failed cause))
        | .ok true => (w, .on (⟨thens, 0⟩ :: frames))
        | .ok false => (w, .on (⟨elses, 0⟩ :: frames))

/-- A walk is its steps, one after the other. -/
theorem walkWithin_succ (v : Invocation) (steps : Nat) (frames : List Frame) (w : World τ) :
    walkWithin v (steps + 1) frames w =
      match w.stride v frames with
      | (w', .on left) => walkWithin v steps left w'
      | (w', .stop walk) => (w', walk) := by
  cases frames with
  | nil => rfl
  -- what is done at a place is the same on both sides, whatever the node there is
  | cons frame outer =>
    simp only [walkWithin, stride]
    cases (w.program.arena.list frame.list)[frame.next]? with
    | none => rfl
    | some item =>
      dsimp only
      cases w.program.arena.nodes[item]? with
      | none => rfl
      | some node =>
        cases node with
        | act action =>
          dsimp only
          generalize w.act v action = acted
          obtain ⟨w', flow⟩ := acted
          cases flow <;> rfl
        | branch condition thens elses =>
          dsimp only
          cases w.holds v.actor condition with
          | error cause => rfl
          | ok holds => cases holds <;> rfl

/-- Everything that one step of a walk can be. -/
inductive Strode (v : Invocation) (w : World τ) : List Frame → World τ → Stride τ → Prop
  | done : Strode v w [] w (.stop .finished)
  | leave {frame : Frame} {outer : List Frame} :
      (w.program.arena.list frame.list)[frame.next]? = none →
      Strode v w (frame :: outer) w (.on outer)
  | skip {list next item : Nat} {outer : List Frame} :
      (w.program.arena.list list)[next]? = some item → w.program.arena.nodes[item]? = none →
      Strode v w (⟨list, next⟩ :: outer) w (.on (⟨list, next + 1⟩ :: outer))
  | act {list next item : Nat} {outer : List Frame} {action : Action} {w' : World τ} :
      (w.program.arena.list list)[next]? = some item →
      w.program.arena.nodes[item]? = some (.act action) → w.act v action = (w', .next) →
      Strode v w (⟨list, next⟩ :: outer) w' (.on (⟨list, next + 1⟩ :: outer))
  | suspend {list next item : Nat} {outer : List Frame} {action : Action} {duration : τ}
      {w' : World τ} :
      (w.program.arena.list list)[next]? = some item →
      w.program.arena.nodes[item]? = some (.act action) →
      w.act v action = (w', .suspend duration) →
      Strode v w (⟨list, next⟩ :: outer) w'
        (.stop (.suspended duration (⟨list, next + 1⟩ :: outer)))
  | halt {list next item : Nat} {outer : List Frame} {action : Action} {w' : World τ} :
      (w.program.arena.list list)[next]? = some item →
      w.program.arena.nodes[item]? = some (.act action) → w.act v action = (w', .halt) →
      Strode v w (⟨list, next⟩ :: outer) w' (.stop .halted)
  | fail {list next item : Nat} {outer : List Frame} {action : Action} {cause : Dangling}
      {w' : World τ} :
      (w.program.arena.list list)[next]? = some item →
      w.program.arena.nodes[item]? = some (.act action) → w.act v action = (w', .fail cause) →
      Strode v w (⟨list, next⟩ :: outer) w' (.stop (.failed cause))
  | dangle {list next item thens elses : Nat} {outer : List Frame} {condition : Condition}
      {cause : Dangling} :
      (w.program.arena.list list)[next]? = some item →
      w.program.arena.nodes[item]? = some (.branch condition thens elses) →
      w.holds v.actor condition = .error cause →
      Strode v w (⟨list, next⟩ :: outer) w (.stop (.failed cause))
  | enter {list next item thens elses : Nat} {outer : List Frame} {condition : Condition}
      (holds : Bool) :
      (w.program.arena.list list)[next]? = some item →
      w.program.arena.nodes[item]? = some (.branch condition thens elses) →
      w.holds v.actor condition = .ok holds →
      Strode v w (⟨list, next⟩ :: outer) w
        (.on (⟨if holds then thens else elses, 0⟩ :: ⟨list, next + 1⟩ :: outer))

/-- A step of a walk is one of those. -/
theorem stride_strode {v : Invocation} {w w' : World τ} {frames : List Frame} {s : Stride τ}
    (strode : w.stride v frames = (w', s)) : Strode v w frames w' s := by
  -- the cases of the relation are the branches of the step, in its order
  cases frames with
  | nil => cases strode; exact .done
  | cons frame outer =>
    obtain ⟨list, next⟩ := frame
    simp only [stride] at strode
    split at strode
    next atEnd => cases strode; exact .leave atEnd
    next item found =>
      split at strode
      next absent => cases strode; exact .skip found absent
      next action node =>
        split at strode
        next acted => cases strode; exact .act found node acted
        next acted => cases strode; exact .suspend found node acted
        next acted => cases strode; exact .halt found node acted
        next acted => cases strode; exact .fail found node acted
      next condition thens elses node =>
        split at strode
        next looked => cases strode; exact .dangle found node looked
        next looked => cases strode; exact .enter true found node looked
        next looked => cases strode; exact .enter false found node looked

/-- A step of a walk carries out at most one action, and notes it if it does not fail. -/
theorem Strode.acted {v : Invocation} {w w' : World τ} {frames : List Frame} {s : Stride τ}
    (strode : Strode v w frames w' s) :
    ∃ (w₀ : World τ) (status : Status) (entries : List (Happening τ)), w.Acted v w₀ ∧
      w' = { w₀ with status := status, journal := entries ++ w₀.journal } ∧
      ∀ h ∈ entries, ∃ action, h = .performed v action := by
  have untouched : ∃ (w₀ : World τ) (status : Status) (entries : List (Happening τ)), w.Acted v w₀ ∧
      w = { w₀ with status := status, journal := entries ++ w₀.journal } ∧
      ∀ h ∈ entries, ∃ action, h = .performed v action :=
    ⟨w, w.status, [], .refl v w, rfl, by simp⟩
  -- only a step at an action changes the world
  cases strode with
  | done | leave _ | skip _ _ | dangle _ _ _ | enter _ _ _ _ => exact untouched
  | act found node acted =>
    obtain ⟨w₀, change, _, rfl⟩ := act_next acted
    exact ⟨w₀, w₀.status, [_], change, rfl, by simp⟩
  | suspend found node acted =>
    obtain ⟨_, rfl⟩ := act_suspend acted
    exact ⟨w, w.status, [_], .refl v w, rfl, by simp⟩
  | halt found node acted =>
    obtain ⟨message, _, rfl⟩ := act_halt acted
    exact ⟨w, .finish message, [_], .refl v w, rfl, by simp⟩
  | fail found node acted => exact ⟨w', w'.status, [], (act_fail acted).1, rfl, by simp⟩

/-- All that a step of a walk notes is that its invocation carries out actions. -/
theorem Strode.performs {v : Invocation} {w w' : World τ} {frames : List Frame} {s : Stride τ}
    (strode : Strode v w frames w' s) :
    ∃ entries, w'.journal = entries ++ w.journal ∧ ∀ h ∈ entries, ∃ action, h = .performed v action := by
  obtain ⟨w₀, status, entries, change, rfl, performed⟩ := strode.acted
  exact ⟨entries, congrArg (entries ++ ·) change.journal, performed⟩

/-- Only an action that ends the game changes the status. -/
theorem Strode.status {v : Invocation} {w w' : World τ} {frames : List Frame} {s : Stride τ}
    (strode : Strode v w frames w' s) (unhalted : s ≠ .stop .halted) : w'.status = w.status := by
  cases strode with
  | done | leave _ | skip _ _ | dangle _ _ _ | enter _ _ _ _ => rfl
  | act found node acted =>
    obtain ⟨w₀, _, same, rfl⟩ := act_next acted
    exact same
  | suspend found node acted =>
    obtain ⟨_, rfl⟩ := act_suspend acted
    rfl
  | halt _ _ _ => exact absurd rfl unhalted
  | fail found node acted => exact (act_fail acted).2

theorem Strode.program {v : Invocation} {w w' : World τ} {frames : List Frame} {s : Stride τ}
    (strode : Strode v w frames w' s) : w'.program = w.program := by
  obtain ⟨w₀, status, entries, change, rfl, _⟩ := strode.acted
  exact change.program

variable {v : Invocation} {w w' : World τ} {frames left : List Frame} {body : Nat}

/-- A walk on a path stays on paths, until it has left the event's list. -/
theorem Strode.path (strode : Strode v w frames w' (.on left))
    (path : w.program.arena.Path body frames) : left = [] ∨ w.program.arena.Path body left := by
  cases strode with
  | leave _ => exact path.leave
  | skip found _ => exact .inr (path.pass found)
  | act found _ _ => exact .inr (path.pass found)
  | enter _ found node looked =>
    -- the if-block is passed first, so the place in the branch lies just behind it
    refine .inr (.branch (path.pass found) found node ?_ (Nat.zero_le _))
    split
    · exact .inl rfl
    · exact .inr rfl

/-- What a wait leaves is a path too. -/
theorem Strode.path_suspended {duration : τ}
    (strode : Strode v w frames w' (.stop (.suspended duration left)))
    (path : w.program.arena.Path body frames) : w.program.arena.Path body left := by
  cases strode with
  | suspend found _ _ => exact path.pass found

/-- A walk does not change the program. -/
theorem walkWithin_program (v : Invocation) (steps : Nat) (frames : List Frame) (w : World τ) :
    (walkWithin v steps frames w).1.program = w.program := by
  induction steps generalizing frames w with
  | zero => rfl
  | succ steps ih =>
    rw [walkWithin_succ]
    split
    next strode => rw [ih, (stride_strode strode).program]
    next strode => exact (stride_strode strode).program

theorem proceed_program (v : Invocation) (frames : List Frame) (w : World τ) :
    (w.proceed v frames).world.program = w.program := by
  have kept := walkWithin_program v (w.program.steps frames) frames w
  simp only [proceed, walk]
  split <;> simp_all [park, modify, note]

/-- What a walk leaves at a wait is a path of the event. -/
theorem walkWithin_path {steps : Nat} {duration : τ}
    (walked : walkWithin v steps frames w = (w', .suspended duration left))
    (path : frames = [] ∨ w.program.arena.Path body frames) : w.program.arena.Path body left := by
  -- the world changes with each step, but its program, which the path is about, does not
  induction steps generalizing frames w with
  | zero => cases walked
  | succ steps ih =>
    rw [walkWithin_succ] at walked
    split at walked
    next strode =>
      have step := stride_strode strode
      rcases path with rfl | path
      · -- a walk without frames is at its end
        cases step
      · rw [← step.program]
        exact ih walked (step.program ▸ step.path path)
    next strode =>
      have step := stride_strode strode
      cases walked
      rcases path with rfl | path
      · cases step
      · exact step.path_suspended path

end World

end Gameplay
