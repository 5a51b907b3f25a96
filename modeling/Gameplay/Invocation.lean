import Gameplay.Perform

/-!
# Invocations

An invocation walks the compiled items of an event. It keeps a stack of frames, innermost first: an
action is carried out where it stands, and an if-block puts the branch that its condition selects on
the stack. The walk ends with the last item, with the run, with a dangling reference, or at a wait,
which keeps the frames that are left.

Every step of a walk either leaves a list or takes an item. A node stands in one list only, so a
walk takes each node at most once; the steps are thereby bounded by `Program.steps`.
-/

namespace Gameplay

/-- How a walk ended. A suspended one has something left to do. -/
inductive Walk (τ rest : Type)
  | finished
  | suspended (duration : τ) (left : rest)
  | halted
  | failed (cause : Dangling)
deriving DecidableEq, Repr

/-- How a part of a tick ended: it came to its end, an action ended the run, or a reference was
dangling. -/
inductive Ending
  | finished
  | halted
  | failed (cause : Dangling)
deriving DecidableEq, Repr

/-- The world after a part of a tick, and how the part ended. -/
structure Played (τ : Type) where
  world : World τ
  ending : Ending

namespace Played

variable {τ : Type}

def finished (w : World τ) : Played τ := ⟨w, .finished⟩

/-- Goes on with another part, if this one came to its end. -/
def andThen (p : Played τ) (next : World τ → Played τ) : Played τ :=
  match p.ending with
  | .finished => next p.world
  | _ => p

end Played

/-- How many steps a walk can take at most: two for each node and one for each frame. -/
def Program.steps (p : Program) (frames : List Frame) : Nat := 2 * p.arena.nodes.size + frames.length

namespace World

variable {τ : Type} [Scalar τ]

/-- Walks on from a stack of frames, within a number of steps. -/
def walkWithin (v : Invocation) : Nat → List Frame → World τ → World τ × Walk τ (List Frame)
  | 0, _, w => (w, .finished)
  | _ + 1, [], w => (w, .finished)
  | steps + 1, frame :: outer, w =>
    match (w.program.arena.list frame.list)[frame.next]? with
    -- the list is at its end, so the enclosing one goes on
    | none => walkWithin v steps outer w
    | some item =>
      -- the place after the item is noted before the item is carried out: a wait keeps it
      let frames := { frame with next := frame.next + 1 } :: outer
      match w.program.arena.nodes[item]? with
      | none => walkWithin v steps frames w
      | some (.act action) =>
        match w.act v action with
        | (w, .next) => walkWithin v steps frames w
        | (w, .suspend duration) => (w, .suspended duration frames)
        | (w, .halt) => (w, .halted)
        | (w, .fail cause) => (w, .failed cause)
      | some (.branch condition thens elses) =>
        match w.holds v.actor condition with
        | .error cause => (w, .failed cause)
        | .ok true => walkWithin v steps (⟨thens, 0⟩ :: frames) w
        | .ok false => walkWithin v steps (⟨elses, 0⟩ :: frames) w

/-- Walks on from a stack of frames to the end, a wait, or a fault. -/
def walk (w : World τ) (v : Invocation) (frames : List Frame) : World τ × Walk τ (List Frame) :=
  walkWithin v (w.program.steps frames) frames w

def park (w : World τ) (v : Invocation) (duration : τ) (frames : List Frame) : World τ :=
  let wait := ⟨v.slot, frames, duration, 0, w.clock.tick, v.partner⟩
  (w.modify v.actor fun i => { i with waits := i.waits ++ [wait] }).note (.suspended v wait)

/-- Walks on from a stack of frames; what a wait leaves is parked. -/
def proceed (w : World τ) (v : Invocation) (frames : List Frame) : Played τ :=
  match w.walk v frames with
  | (w, .finished) => ⟨w, .finished⟩
  | (w, .suspended duration left) => ⟨w.park v duration left, .finished⟩
  | (w, .halted) => ⟨w, .halted⟩
  | (w, .failed cause) => ⟨w, .failed cause⟩

def start (w : World τ) (v : Invocation) : Played τ :=
  match w.program.body? v.object v.slot with
  | none => .finished w
  | some body => (w.note (.started v)).proceed v [⟨body, 0⟩]

/-- Resumes a wait of an instance. A partner that is gone is forgotten. -/
def resume (w : World τ) (actor object : Nat) (wait : Wait τ) : Played τ :=
  let partner := wait.partner.filter fun other => (w.instance? other).isSome
  let v := ⟨actor, object, wait.slot, partner⟩
  (w.note (.resumed v wait)).proceed v wait.frames

end World

end Gameplay
