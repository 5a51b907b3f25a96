import Gameplay.Invocation

/-!
# The phases of a tick

Each phase takes the instances that live when it begins, ascending by id, and starts the invocations
that are theirs. At its turn an invocation is passed over if its instance or its partner has been
destroyed or its slot is suspended. A phase ends early when an action ends the run.
-/

namespace Gameplay

namespace World

variable {τ : Type}

/-- Whether an invocation is passed over. -/
def bars (w : World τ) (v : Invocation) : Bool :=
  w.isDestroyed v.actor || v.partner.any w.isDestroyed || w.isSuspended v.actor v.slot

/-- The slots of an object whose events have a certain trigger. -/
def slots (w : World τ) (object : Nat) (wanted : Trigger → Bool) : List Nat :=
  ((w.program.object? object).map (·.slots wanted)).getD []

/-- The invocations of an instance for the events with a certain trigger. -/
def invocations (w : World τ) (i : Instance τ) (partner : Option Nat) (wanted : Trigger → Bool) :
    List Invocation :=
  (w.slots i.object wanted).map fun slot => ⟨i.id, i.object, slot, partner⟩

variable [Scalar τ]

/-- Starts invocations in order, passing over those that are barred at their turn. -/
def startAll : List Invocation → World τ → Played τ
  | [], w => .finished w
  | v :: vs, w => if w.bars v then startAll vs w else (w.start v).andThen (startAll vs)

/-! ### create -/

/-- The create events of instances that have had none yet. -/
def createEach : List (Instance τ) → World τ → Played τ
  | [], w => .finished w
  | i :: is, w =>
    let w := w.modify i.id fun i => { i with fresh := false }
    (startAll (w.invocations i none (· == .create)) w).andThen (createEach is)

def createPhase (w : World τ) : Played τ := createEach (w.live.filter (·.fresh)) w

/-! ### step -/

/-- Resumes the waits of an instance in order, until the instance is destroyed. -/
def resumeAll (i : Instance τ) : List (Wait τ) → World τ → Played τ
  | [], w => .finished w
  | wait :: waits, w =>
    if w.isDestroyed i.id then .finished w
    else (w.resume i.id i.object wait).andThen (resumeAll i waits)

/-- Lets time pass for the waits of an instance; gives those that end. -/
def takeDue (w : World τ) (id : Nat) : World τ × List (Wait τ) :=
  match w.instance? id with
  | none => (w, [])
  | some i =>
    let (due, kept) := Waits.advance i.waits w.clock.delta w.clock.tick
    (w.modify id fun i => { i with waits := kept }, due)

/-- The waits that end and the step events of instances, one instance after the other. -/
def stepEach : List (Instance τ) → World τ → Played τ
  | [], w => .finished w
  | i :: is, w =>
    let (w, due) := w.takeDue i.id
    ((resumeAll i due w).andThen fun w => startAll (w.invocations i none (· == .step)) w).andThen
      (stepEach is)

def stepPhase (w : World τ) : Played τ := stepEach w.live w

/-! ### movement and collision -/

def applyVelocities (w : World τ) : World τ :=
  let seconds := w.clock.seconds
  { w with instances := w.instances.map fun i =>
      if i.destroyed || i.velocity.isZero then i
      else { i with position := i.position + i.velocity.scale seconds } }

def bodyOf (i : Instance τ) : Body Float32 := ⟨i.id, i.position, i.collider⟩

/-- The collision events of an instance that meets another. -/
def collisionInvocations (w : World τ) (i other : Instance τ) : List Invocation :=
  let target := ((w.program.object? other.object).map (·.id)).getD ""
  w.invocations i (some other.id) (· == .collision target)

/-- The invocations of all pairs that collide, in the order of the pairs. -/
def collisions (w : World τ) : List Invocation :=
  let live := w.live
  (collidingPairs (live.map bodyOf)).flatMap fun (i, j) =>
    match live[i]?, live[j]? with
    | some i, some other => w.collisionInvocations i other
    | _, _ => []

def collisionPhase (w : World τ) : Played τ := startAll w.collisions w

/-! ### custom events -/

def answers (e : Emit) : Trigger → Bool
  | .custom name source => name == e.name && source.all (· == e.source)
  | _ => false

/-- The invocations that custom events start, in the order of the events. -/
def customInvocations (w : World τ) (emits : List Emit) : List Invocation :=
  emits.flatMap fun e => w.live.flatMap fun i => w.invocations i none (answers e)

/-- Handles the custom events that are pending, then those emitted meanwhile, and so on for a number
of rounds. -/
def customRounds : Nat → World τ → Played τ
  | 0, w => .finished w
  | rounds + 1, w =>
    let emits := w.pending.emits.reverse
    if emits.isEmpty then .finished w
    else
      -- what is emitted from here on belongs to a later round
      let taken := { w with pending := { w.pending with emits := [] } }.note (.handled emits)
      (startAll (taken.customInvocations emits) taken).andThen (customRounds rounds)

def customPhase (w : World τ) : Played τ := customRounds w.settings.maxRounds.toNat w

end World

end Gameplay
