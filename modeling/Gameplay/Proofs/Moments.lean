import Gameplay.Game
import Gameplay.Proofs.Places
import Gameplay.Proofs.RoomEffects
import Mathlib.Logic.Relation

/-!
# The moments of a tick

A tick is a nest of recursions: phases over instances, over their invocations, over the items of a
script. A `Moment` is a state in the middle of it, and `Moment.step` leads to the next one: it takes one
step of a walk, lets one invocation have its turn, or goes on with the phase.

## Main result

`tick_passes`: the moments of a tick end in the world and with the ending of `World.tick`. So what holds
at the first moment and is kept by every step holds at every point inside a tick and after it.

## Proof strategy

`Moment.Reaches` says that the moments from one on do what a function of the tick does. It composes as
the functions do (`Reaches.andThen`), so each function has one lemma, which follows its recursion.
-/

namespace Gameplay

/-- A turn of an invocation that a phase has arranged. -/
inductive Turn (τ : Type)
  | start (invocation : Invocation)
  | resume (actor object : Nat) (wait : Wait τ)

/-- The parts of a tick. The rounds of custom events that may still come are counted. -/
inductive Phase
  | create
  | step
  | collision
  | custom (rounds : Nat)
  | commit
  | transition
  | request
  | close

/-- A walk in progress: its invocation, the steps that it may still take, and its frames. -/
structure Walking where
  invocation : Invocation
  steps : Nat
  frames : List Frame

/-- A point inside a tick: the world, the walk in progress, the turns that come next, the instances that
the phase has still to handle, and how the tick ended, if it did. -/
structure Moment (τ : Type) where
  world : World τ
  phase : Phase
  walking : Option Walking
  agenda : List (Turn τ)
  ahead : List (Instance τ)
  ending : Option Ending

namespace Moment

variable {τ : Type} [Scalar τ]

def begin (w : World τ) (delta : τ) : Moment τ :=
  let w := { w with clock := w.clock.advance delta, journal := [] }
  if w.transition.isRunning then ⟨w, .commit, none, [], [], none⟩
  else ⟨w, .create, none, [], w.live.filter (·.fresh), none⟩

@[simp] theorem begin_world (w : World τ) (delta : τ) :
    (begin w delta).world = { w with clock := w.clock.advance delta, journal := [] } := by
  unfold begin
  dsimp only
  split <;> rfl

@[simp] theorem begin_agenda (w : World τ) (delta : τ) : (begin w delta).agenda = [] := by
  unfold begin
  dsimp only
  split <;> rfl

@[simp] theorem begin_walking (w : World τ) (delta : τ) : (begin w delta).walking = none := by
  unfold begin
  dsimp only
  split <;> rfl

@[simp] theorem begin_ending (w : World τ) (delta : τ) : (begin w delta).ending = none := by
  unfold begin
  dsimp only
  split <;> rfl

def walkOn (m : Moment τ) (walk : Walking) : Moment τ :=
  match walk.steps with
  | 0 => { m with walking := none }
  | steps + 1 =>
    match m.world.stride walk.invocation walk.frames with
    | (w, .on left) => { m with world := w, walking := some ⟨walk.invocation, steps, left⟩ }
    | (w, .stop .finished) => { m with world := w, walking := none }
    | (w, .stop (.suspended duration left)) =>
      { m with world := w.park walk.invocation duration left, walking := none }
    | (w, .stop .halted) => { m with world := w, walking := none, ending := some .halted }
    | (w, .stop (.failed cause)) =>
      { m with world := w, walking := none, ending := some (.failed cause) }

def enter (m : Moment τ) (v : Invocation) (h : Happening τ) (frames : List Frame) : Moment τ :=
  { m with world := m.world.note h, walking := some ⟨v, m.world.program.steps frames, frames⟩ }

def take (m : Moment τ) (turn : Turn τ) (rest : List (Turn τ)) : Moment τ :=
  let m := { m with agenda := rest }
  match turn with
  | .start v =>
    if m.world.bars v then m
    else match m.world.program.body? v.object v.slot with
      | none => m
      | some body => m.enter v (.started v) [⟨body, 0⟩]
  | .resume actor object wait =>
    if m.world.isDestroyed actor then m
    else
      let v := ⟨actor, object, wait.slot,
        wait.partner.filter fun other => (m.world.instance? other).isSome⟩
      m.enter v (.resumed v wait) wait.frames

/-- Goes on to a phase after a part of the tick, if the part came to its end. -/
def settle (m : Moment τ) (p : Played τ) (phase : Phase) : Moment τ :=
  match p.ending with
  | .finished => { m with world := p.world, phase := phase }
  | ending => { m with world := p.world, ending := some ending }

/-- Goes on with the phase, when all turns are over. -/
def goOn (m : Moment τ) : Moment τ :=
  let w := m.world
  match m.phase, m.ahead with
  | .create, [] => { m with phase := .step, ahead := w.live }
  | .create, i :: is =>
    let w := w.modify i.id fun i => { i with fresh := false }
    { m with world := w, agenda := (w.invocations i none (· == .create)).map .start, ahead := is }
  | .step, [] =>
    let w := w.applyVelocities
    { m with world := w, phase := .collision, agenda := w.collisions.map .start }
  | .step, i :: is =>
    let (w, due) := w.takeDue i.id
    { m with
      world := w
      agenda := due.map (.resume i.id i.object) ++ (w.invocations i none (· == .step)).map .start
      ahead := is }
  | .collision, _ => { m with phase := .custom w.settings.maxRounds.toNat }
  | .custom 0, _ => { m with phase := .commit }
  | .custom (rounds + 1), _ =>
    let emits := w.pending.emits.reverse
    if emits.isEmpty then { m with phase := .commit }
    else
      let w := { w with pending := { w.pending with emits := [] } }.note (.handled emits)
      { m with world := w, phase := .custom rounds, agenda := (w.customInvocations emits).map .start }
  | .commit, _ => { m with world := w.commit, phase := .transition }
  | .transition, _ => m.settle w.stepTransition .request
  | .request, _ => m.settle w.followRequest .close
  | .close, _ =>
    { m with
      world := { w with toasts := w.toasts.advance w.clock.delta, keys := w.keys.forgetEdges }
      ending := some .finished }

/-- The next moment, unless the tick has ended. -/
def step (m : Moment τ) : Option (Moment τ) :=
  match m.ending with
  | some _ => none
  | none =>
    match m.walking, m.agenda with
    | some walk, _ => some (m.walkOn walk)
    | none, turn :: rest => some (m.take turn rest)
    | none, [] => some m.goOn

/-- From one moment to the same or a later one of the tick. -/
abbrev Steps : Moment τ → Moment τ → Prop := Relation.ReflTransGen fun m next => m.step = some next

/-- Of two moments of a tick one comes first. -/
theorem Steps.total {m a b : Moment τ} (left : Steps m a) (right : Steps m b) :
    Steps a b ∨ Steps b a := by
  refine Relation.ReflTransGen.total_of_right_unique (fun m a b stepLeft stepRight => ?_) left right
  rw [stepLeft] at stepRight
  exact Option.some.inj stepRight

/-- No moment comes after the end. -/
theorem Steps.ended {m next : Moment τ} (steps : Steps m next) {ending : Ending}
    (finished : m.ending = some ending) : next = m := by
  induction steps with
  | refl => rfl
  | tail _ last ih =>
    rw [ih, step, finished] at last
    cases last

/-! ### the moments do what the functions do -/

/-- The moments from `m` on play what was played: they come to the moment that goes on with its world, or
end as it ended. -/
structure Reaches (m : Moment τ) (p : Played τ) (next : World τ → Moment τ) : Prop where
  goes : p.ending = .finished → Steps m (next p.world)
  ends : p.ending ≠ .finished → ∃ last, Steps m last ∧ last.world = p.world ∧ last.ending = some p.ending

variable {m : Moment τ} {next : World τ → Moment τ}

theorem Reaches.finished {w : World τ} (steps : Steps m (next w)) : Reaches m (.finished w) next :=
  ⟨fun _ => steps, fun other => absurd rfl other⟩

theorem Reaches.ended {p : Played τ} {last : Moment τ} (steps : Steps m last)
    (world : last.world = p.world) (ending : last.ending = some p.ending)
    (early : p.ending ≠ .finished) : Reaches m p next :=
  ⟨fun finished => absurd finished early, fun _ => ⟨last, steps, world, ending⟩⟩

/-- What follows from a later moment follows from an earlier one. -/
theorem Reaches.from {p : Played τ} {first : Moment τ} (steps : Steps m first)
    (reaches : Reaches first p next) : Reaches m p next := by
  refine ⟨fun finished => steps.trans (reaches.goes finished), fun early => ?_⟩
  obtain ⟨last, later, world, ending⟩ := reaches.ends early
  exact ⟨last, steps.trans later, world, ending⟩

/-- Parts that are played one after the other are reached one after the other. -/
theorem Reaches.andThen {p : Played τ} {f : World τ → Played τ} {later : World τ → Moment τ}
    (reaches : Reaches m p next)
    (goes : p.ending = .finished → Reaches (next p.world) (f p.world) later) :
    Reaches m (p.andThen f) later := by
  obtain ⟨w, ending⟩ := p
  -- what ended early is not gone on with
  cases ending with
  | finished => exact (goes rfl).from (reaches.goes rfl)
  | halted =>
    obtain ⟨last, steps, world, ending⟩ := reaches.ends nofun
    exact .ended steps world ending nofun
  | failed cause =>
    obtain ⟨last, steps, world, ending⟩ := reaches.ends nofun
    exact .ended steps world ending nofun

private theorem Reaches.after {p : Played τ} {first : Moment τ} (moved : m.step = some first)
    (reaches : Reaches first p next) : Reaches m p next :=
  reaches.from (.single moved)

/-- What a walk comes to: what a wait leaves is parked. -/
def landing (v : Invocation) : World τ × Walk τ (List Frame) → Played τ
  | (w, .finished) => ⟨w, .finished⟩
  | (w, .suspended duration left) => ⟨w.park v duration left, .finished⟩
  | (w, .halted) => ⟨w, .halted⟩
  | (w, .failed cause) => ⟨w, .failed cause⟩

/-- The walk in progress comes to what `World.walkWithin` comes to. -/
private theorem walking_reaches (v : Invocation) (phase : Phase) (agenda : List (Turn τ))
    (ahead : List (Instance τ)) (steps : Nat) (frames : List Frame) (w : World τ) :
    Reaches ⟨w, phase, some ⟨v, steps, frames⟩, agenda, ahead, none⟩
      (landing v (World.walkWithin v steps frames w)) fun w => ⟨w, phase, none, agenda, ahead, none⟩ := by
  -- one moment for each step of the walk, so the induction is on the steps that it may still take
  induction steps generalizing frames w with
  | zero => exact .after rfl (.finished .refl)
  | succ steps ih =>
    rw [World.walkWithin_succ]
    generalize strode : w.stride v frames = result
    obtain ⟨w', result⟩ := result
    have moved : step ⟨w, phase, some ⟨v, steps + 1, frames⟩, agenda, ahead, none⟩ =
        some (walkOn ⟨w, phase, some ⟨v, steps + 1, frames⟩, agenda, ahead, none⟩
          ⟨v, steps + 1, frames⟩) := rfl
    simp only [walkOn, strode] at moved
    cases result with
    | on left => exact .after moved (ih left w')
    | stop walk =>
      cases walk with
      | finished => exact .after moved (.finished .refl)
      | suspended duration left => exact .after moved (.finished .refl)
      | halted => exact .ended (.single moved) rfl rfl nofun
      | failed cause => exact .ended (.single moved) rfl rfl nofun

/-- An invocation whose frames are entered comes to what it proceeds to. -/
private theorem enter_reaches (v : Invocation) (phase : Phase) (agenda : List (Turn τ))
    (ahead : List (Instance τ)) (h : Happening τ) (frames : List Frame) (w : World τ) :
    Reaches (enter ⟨w, phase, none, agenda, ahead, none⟩ v h frames) ((w.note h).proceed v frames)
      fun w => ⟨w, phase, none, agenda, ahead, none⟩ :=
  walking_reaches v phase agenda ahead (w.program.steps frames) frames (w.note h)

/-- The turns of invocations that are started do what `World.startAll` does. -/
private theorem starts_reach (vs : List Invocation) (phase : Phase) (rest : List (Turn τ))
    (ahead : List (Instance τ)) (w : World τ) :
    Reaches ⟨w, phase, none, vs.map .start ++ rest, ahead, none⟩ (World.startAll vs w)
      fun w => ⟨w, phase, none, rest, ahead, none⟩ := by
  induction vs generalizing w with
  | nil => exact .finished .refl
  | cons v vs ih =>
    -- the first turn is either passed over or taken, and then the others have theirs
    have moved : step ⟨w, phase, none, .start v :: (vs.map .start ++ rest), ahead, none⟩ =
        some (take ⟨w, phase, none, .start v :: (vs.map .start ++ rest), ahead, none⟩ (.start v)
          (vs.map .start ++ rest)) := rfl
    simp only [take] at moved
    simp only [World.startAll, List.map_cons, List.cons_append]
    split
    next barred =>
      simp only [barred, if_true] at moved
      exact .after moved (ih w)
    next free =>
      simp only [free] at moved
      simp only [World.start]
      cases found : w.program.body? v.object v.slot with
      | none =>
        simp only [found] at moved
        exact .after moved (ih w)
      | some body =>
        simp only [found] at moved
        exact .after moved ((enter_reaches v phase _ ahead (.started v) _ w).andThen fun _ => ih _)

/-- No wait of a destroyed instance is resumed. -/
private theorem resumeAll_destroyed (i : Instance τ) (waits : List (Wait τ)) {w : World τ}
    (destroyed : w.isDestroyed i.id = true) : World.resumeAll i waits w = .finished w := by
  cases waits with
  | nil => rfl
  | cons wait waits => simp only [World.resumeAll, destroyed, if_true]

/-- The turns of an instance's waits do what `World.resumeAll` does. -/
private theorem resumes_reach (i : Instance τ) (waits : List (Wait τ)) (phase : Phase)
    (rest : List (Turn τ)) (ahead : List (Instance τ)) (w : World τ) :
    Reaches ⟨w, phase, none, waits.map (.resume i.id i.object) ++ rest, ahead, none⟩
      (World.resumeAll i waits w) fun w => ⟨w, phase, none, rest, ahead, none⟩ := by
  induction waits generalizing w with
  | nil => exact .finished .refl
  | cons wait waits ih =>
    have moved : step ⟨w, phase, none, .resume i.id i.object wait ::
          (waits.map (.resume i.id i.object) ++ rest), ahead, none⟩ =
        some (take ⟨w, phase, none, .resume i.id i.object wait ::
          (waits.map (.resume i.id i.object) ++ rest), ahead, none⟩ (.resume i.id i.object wait)
          (waits.map (.resume i.id i.object) ++ rest)) := rfl
    simp only [take] at moved
    simp only [World.resumeAll, List.map_cons, List.cons_append]
    split
    next destroyed =>
      -- the other waits of the instance are passed over as well
      simp only [destroyed, if_true] at moved
      exact .after moved (resumeAll_destroyed i waits destroyed ▸ ih w)
    next present =>
      simp only [present] at moved
      exact .after moved ((enter_reaches _ phase _ ahead (.resumed _ wait) _ w).andThen fun _ => ih _)

omit [Scalar τ] in
/-- Which invocations an instance has depends on the program only. -/
theorem invocations_program {w w' : World τ} (same : w'.program = w.program) (i : Instance τ)
    (partner : Option Nat) (wanted : Trigger → Bool) :
    w'.invocations i partner wanted = w.invocations i partner wanted := by
  simp only [World.invocations, World.slots, same]

private theorem resumeAll_program (i : Instance τ) (waits : List (Wait τ)) (w : World τ) :
    (World.resumeAll i waits w).world.program = w.program := by
  induction waits generalizing w with
  | nil => rfl
  | cons wait waits ih =>
    simp only [World.resumeAll]
    split
    · rfl
    · have kept : (w.resume i.id i.object wait).world.program = w.program :=
        World.proceed_program _ _ _
      simp only [Played.andThen]
      split
      · rw [ih, kept]
      · exact kept

/-! ### phases -/

theorem create_reaches (is : List (Instance τ)) (w : World τ) :
    Reaches ⟨w, .create, none, [], is, none⟩ (World.createEach is w)
      fun w => ⟨w, .step, none, [], w.live, none⟩ := by
  induction is generalizing w with
  | nil => exact .finished (.single rfl)
  | cons i is ih =>
    let created := w.modify i.id fun i => { i with fresh := false }
    have turns := starts_reach (created.invocations i none (· == .create)) .create [] is created
    rw [List.append_nil] at turns
    exact .after rfl (turns.andThen fun _ => ih _)

/-- The turns of an instance in the step phase come to the moment that handles the next one. -/
theorem handle_reaches (i : Instance τ) (is : List (Instance τ)) {w aged : World τ} {due : List (Wait τ)}
    (taken : w.takeDue i.id = (aged, due)) :
    Reaches ⟨w, .step, none, [], i :: is, none⟩
      ((World.resumeAll i due aged).andThen fun w => World.startAll (w.invocations i none (· == .step)) w)
      fun w => ⟨w, .step, none, [], is, none⟩ := by
  let starts := aged.invocations i none (· == .step)
  have resumes := resumes_reach i due .step (starts.map .start) is aged
  have same : (World.resumeAll i due aged).world.program = aged.program := resumeAll_program i due aged
  have turns := starts_reach starts .step [] is (World.resumeAll i due aged).world
  rw [List.append_nil] at turns
  have moved : step ⟨w, .step, none, [], i :: is, none⟩ =
      some ⟨aged, .step, none, due.map (.resume i.id i.object) ++ starts.map .start, is, none⟩ := by
    simp only [step, goOn, taken, starts]
  -- the Step events are arranged together with the waits; what is resumed does not change the program
  refine .after moved (resumes.andThen fun _ => ?_)
  rw [invocations_program same]
  exact turns

private theorem step_reaches (is : List (Instance τ)) (w : World τ) :
    Reaches ⟨w, .step, none, [], is, none⟩ (World.stepEach is w)
      fun w => ⟨w, .step, none, [], [], none⟩ := by
  induction is generalizing w with
  | nil => exact .finished .refl
  | cons i is ih =>
    generalize taken : w.takeDue i.id = handled
    obtain ⟨aged, due⟩ := handled
    simp only [World.stepEach, taken]
    exact (handle_reaches i is taken).andThen fun _ => ih _

/-- The phases before movement come to the moment in which instances move. -/
theorem stepped_reaches (w : World τ) :
    Reaches ⟨w, .create, none, [], w.live.filter (·.fresh), none⟩ (w.createPhase.andThen World.stepPhase)
      fun w => ⟨w, .step, none, [], [], none⟩ := by
  have created : Reaches _ w.createPhase _ := create_reaches (w.live.filter (·.fresh)) w
  have stepped (w : World τ) : Reaches _ w.stepPhase _ := step_reaches w.live w
  exact created.andThen fun _ => stepped _

private theorem collision_reaches (w : World τ) :
    Reaches ⟨w, .step, none, [], [], none⟩ w.applyVelocities.collisionPhase
      fun w => ⟨w, .custom w.settings.maxRounds.toNat, none, [], [], none⟩ := by
  have turns := starts_reach w.applyVelocities.collisions .collision [] [] w.applyVelocities
  rw [List.append_nil] at turns
  have moved (w : World τ) : Steps ⟨w, .collision, none, [], [], none⟩
      ⟨w, .custom w.settings.maxRounds.toNat, none, [], [], none⟩ := .single rfl
  exact .after rfl ⟨fun finished => (turns.goes finished).trans (moved _), turns.ends⟩

private theorem custom_reaches (rounds : Nat) (w : World τ) :
    Reaches ⟨w, .custom rounds, none, [], [], none⟩ (World.customRounds rounds w)
      fun w => ⟨w, .commit, none, [], [], none⟩ := by
  -- each round begins with the world that the turns of the round before it have left
  induction rounds generalizing w with
  | zero => exact .finished (.single rfl)
  | succ rounds ih =>
    simp only [World.customRounds]
    have moved : step ⟨w, .custom (rounds + 1), none, [], [], none⟩ =
        some (goOn ⟨w, .custom (rounds + 1), none, [], [], none⟩) := rfl
    simp only [goOn] at moved
    split
    next empty =>
      simp only [empty, if_true] at moved
      exact .finished (.single moved)
    next asked =>
      simp only [asked] at moved
      let emits := w.pending.emits.reverse
      let taken := { w with pending := { w.pending with emits := [] } }.note (.handled emits)
      have turns := starts_reach (taken.customInvocations emits) (.custom rounds) [] [] taken
      rw [List.append_nil] at turns
      exact .after moved (turns.andThen fun _ => ih _)

/-- The phases of events come to the moment in which instances are removed and spawned. -/
theorem events_reach (w : World τ) :
    Reaches ⟨w, .create, none, [], w.live.filter (·.fresh), none⟩ w.eventPhases
      fun w => ⟨w, .commit, none, [], [], none⟩ := by
  have handled (w : World τ) : Reaches _ w.customPhase _ := custom_reaches w.settings.maxRounds.toNat w
  have moved := (stepped_reaches w).andThen (f := fun w => w.applyVelocities.collisionPhase) fun _ =>
    collision_reaches _
  exact moved.andThen fun _ => handled _

/-- A part of the end of a tick. -/
private theorem settle_reaches {m : Moment τ} {p : Played τ} {phase : Phase}
    (moved : m.step = some (m.settle p phase)) :
    Reaches m p fun w => { m with world := w, phase := phase } := by
  obtain ⟨w, ending⟩ := p
  cases ending with
  | finished => exact .finished (.single moved)
  | halted => exact .ended (.single moved) rfl rfl nofun
  | failed cause => exact .ended (.single moved) rfl rfl nofun

private theorem close_reaches (w : World τ) :
    Reaches ⟨w, .commit, none, [], [], none⟩ w.closeTick
      fun w => ⟨w, .close, none, [], [], some .finished⟩ := by
  have arrived : Reaches ⟨w.commit, .transition, none, [], [], none⟩ w.commit.stepTransition _ :=
    settle_reaches rfl
  have followed (w : World τ) : Reaches ⟨w, .request, none, [], [], none⟩ w.followRequest _ :=
    settle_reaches rfl
  refine .after rfl ((arrived.andThen fun _ => followed _).andThen fun _ => ?_)
  exact .finished (.single rfl)

/-- The moments of a tick end in its world and with its ending. -/
theorem tick_passes (w : World τ) (delta : τ) :
    ∃ last, Steps (begin w delta) last ∧ last.world = (w.tick delta).world ∧
      last.ending = some (w.tick delta).ending := by
  have reaches : Reaches (begin w delta) (w.tick delta)
      fun w => ⟨w, .close, none, [], [], some .finished⟩ := by
    simp only [begin, World.tick]
    split
    · exact close_reaches _
    · refine Reaches.andThen (events_reach _) fun _ => close_reaches _
  -- a tick that is cut short ends in a moment of its own
  by_cases finished : (w.tick delta).ending = .finished
  · exact ⟨_, reaches.goes finished, rfl, by rw [finished]⟩
  · exact reaches.ends finished

/-- From every moment of a tick the tick goes on to its end. -/
theorem tick_goes_on {w : World τ} {delta : τ} (inside : Steps (begin w delta) m) :
    ∃ last, Steps m last ∧ last.world = (w.tick delta).world ∧
      last.ending = some (w.tick delta).ending := by
  obtain ⟨last, toLast, ends, ending⟩ := tick_passes w delta
  refine ⟨last, ?_, ends, ending⟩
  rcases inside.total toLast with later | earlier
  · exact later
  · rw [earlier.ended ending]

/-! ### what a step can be -/

/-- Everything that can happen from one moment to the next. -/
inductive Moved : Moment τ → Moment τ → Prop
  /-- The walk goes on. -/
  | walk {w w' : World τ} {phase : Phase} {v : Invocation} {steps : Nat} {frames left : List Frame}
      {agenda : List (Turn τ)} {ahead : List (Instance τ)} :
      World.Strode v w frames w' (.on left) →
      Moved ⟨w, phase, some ⟨v, steps + 1, frames⟩, agenda, ahead, none⟩
        ⟨w', phase, some ⟨v, steps, left⟩, agenda, ahead, none⟩
  /-- The walk comes to its end, or to that of its steps. -/
  | finish {w : World τ} {phase : Phase} {walk : Walking} {agenda : List (Turn τ)}
      {ahead : List (Instance τ)} : walk.steps = 0 ∨ walk.frames = [] →
      Moved ⟨w, phase, some walk, agenda, ahead, none⟩ ⟨w, phase, none, agenda, ahead, none⟩
  /-- The walk waits. -/
  | park {w w' : World τ} {phase : Phase} {v : Invocation} {steps : Nat} {frames left : List Frame}
      {duration : τ} {agenda : List (Turn τ)} {ahead : List (Instance τ)} :
      World.Strode v w frames w' (.stop (.suspended duration left)) →
      Moved ⟨w, phase, some ⟨v, steps + 1, frames⟩, agenda, ahead, none⟩
        ⟨w'.park v duration left, phase, none, agenda, ahead, none⟩
  /-- An action of the walk ends the run. -/
  | halt {w w' : World τ} {phase : Phase} {v : Invocation} {steps : Nat} {frames : List Frame}
      {agenda : List (Turn τ)} {ahead : List (Instance τ)} :
      World.Strode v w frames w' (.stop .halted) →
      Moved ⟨w, phase, some ⟨v, steps + 1, frames⟩, agenda, ahead, none⟩
        ⟨w', phase, none, agenda, ahead, some .halted⟩
  /-- A reference of the walk is dangling. -/
  | fail {w w' : World τ} {phase : Phase} {v : Invocation} {steps : Nat} {frames : List Frame}
      {cause : Dangling} {agenda : List (Turn τ)} {ahead : List (Instance τ)} :
      World.Strode v w frames w' (.stop (.failed cause)) →
      Moved ⟨w, phase, some ⟨v, steps + 1, frames⟩, agenda, ahead, none⟩
        ⟨w', phase, none, agenda, ahead, some (.failed cause)⟩
  /-- An invocation is passed over. -/
  | pass {w : World τ} {phase : Phase} {v : Invocation} {rest : List (Turn τ)}
      {ahead : List (Instance τ)} :
      w.bars v = true ∨ w.program.body? v.object v.slot = none →
      Moved ⟨w, phase, none, .start v :: rest, ahead, none⟩ ⟨w, phase, none, rest, ahead, none⟩
  /-- A wait of a destroyed instance is dropped. -/
  | drop {w : World τ} {phase : Phase} {actor object : Nat} {wait : Wait τ} {rest : List (Turn τ)}
      {ahead : List (Instance τ)} : w.isDestroyed actor = true →
      Moved ⟨w, phase, none, .resume actor object wait :: rest, ahead, none⟩
        ⟨w, phase, none, rest, ahead, none⟩
  /-- An invocation starts. -/
  | start {w : World τ} {phase : Phase} {v : Invocation} {body : Nat} {rest : List (Turn τ)}
      {ahead : List (Instance τ)} :
      w.bars v = false → w.program.body? v.object v.slot = some body →
      Moved ⟨w, phase, none, .start v :: rest, ahead, none⟩
        ⟨w.note (.started v), phase, some ⟨v, w.program.steps [⟨body, 0⟩], [⟨body, 0⟩]⟩, rest, ahead, none⟩
  /-- A wait is resumed. -/
  | resume {w : World τ} {phase : Phase} {actor object : Nat} {wait : Wait τ} {partner : Option Nat}
      {rest : List (Turn τ)} {ahead : List (Instance τ)} : w.isDestroyed actor = false →
      partner = wait.partner.filter (fun other => (w.instance? other).isSome) →
      Moved ⟨w, phase, none, .resume actor object wait :: rest, ahead, none⟩
        ⟨w.note (.resumed ⟨actor, object, wait.slot, partner⟩ wait), phase,
          some ⟨⟨actor, object, wait.slot, partner⟩, w.program.steps wait.frames, wait.frames⟩, rest,
          ahead, none⟩
  /-- A fresh instance is about to have its create events. -/
  | create {w : World τ} {i : Instance τ} {is : List (Instance τ)} :
      Moved ⟨w, .create, none, [], i :: is, none⟩
        ⟨w.modify i.id fun i => { i with fresh := false }, .create, none,
          (w.invocations i none (· == .create)).map .start, is, none⟩
  /-- The step phase begins. -/
  | created {w : World τ} :
      Moved ⟨w, .create, none, [], [], none⟩ ⟨w, .step, none, [], w.live, none⟩
  /-- Time passes for the waits of an instance. -/
  | step {w w' : World τ} {i : Instance τ} {is : List (Instance τ)} {due : List (Wait τ)} :
      w.takeDue i.id = (w', due) →
      Moved ⟨w, .step, none, [], i :: is, none⟩
        ⟨w', .step, none, due.map (.resume i.id i.object) ++
          (w.invocations i none (· == .step)).map .start, is, none⟩
  /-- Instances move, and the collision phase begins. -/
  | stepped {w : World τ} :
      Moved ⟨w, .step, none, [], [], none⟩
        ⟨w.applyVelocities, .collision, none, w.applyVelocities.collisions.map .start, [], none⟩
  /-- The phase of custom events begins. -/
  | collided {w : World τ} {ahead : List (Instance τ)} :
      Moved ⟨w, .collision, none, [], ahead, none⟩
        ⟨w, .custom w.settings.maxRounds.toNat, none, [], ahead, none⟩
  /-- A round of custom events begins. -/
  | handle {w taken : World τ} {rounds : Nat} {emits : List Emit} {ahead : List (Instance τ)} :
      emits = w.pending.emits.reverse → emits ≠ [] →
      taken = { w with pending := { w.pending with emits := [] } }.note (.handled emits) →
      Moved ⟨w, .custom (rounds + 1), none, [], ahead, none⟩
        ⟨taken, .custom rounds, none, (taken.customInvocations emits).map .start, ahead, none⟩
  /-- No round of custom events is left, or no event. -/
  | handled {w : World τ} {rounds : Nat} {ahead : List (Instance τ)} :
      rounds = 0 ∨ w.pending.emits = [] →
      Moved ⟨w, .custom rounds, none, [], ahead, none⟩ ⟨w, .commit, none, [], ahead, none⟩
  /-- Instances are removed and spawned. -/
  | commit {w : World τ} {ahead : List (Instance τ)} :
      Moved ⟨w, .commit, none, [], ahead, none⟩ ⟨w.commit, .transition, none, [], ahead, none⟩
  /-- Time passes for the transition. -/
  | transition {w : World τ} {ahead : List (Instance τ)} : w.stepTransition.ending = .finished →
      Moved ⟨w, .transition, none, [], ahead, none⟩
        ⟨w.stepTransition.world, .request, none, [], ahead, none⟩
  | transitionFailed {w : World τ} {ahead : List (Instance τ)} :
      w.stepTransition.ending ≠ .finished →
      Moved ⟨w, .transition, none, [], ahead, none⟩
        ⟨w.stepTransition.world, .transition, none, [], ahead, some w.stepTransition.ending⟩
  /-- The room change that is asked for is carried out. -/
  | request {w : World τ} {ahead : List (Instance τ)} : w.followRequest.ending = .finished →
      Moved ⟨w, .request, none, [], ahead, none⟩
        ⟨w.followRequest.world, .close, none, [], ahead, none⟩
  | requestFailed {w : World τ} {ahead : List (Instance τ)} :
      w.followRequest.ending ≠ .finished →
      Moved ⟨w, .request, none, [], ahead, none⟩
        ⟨w.followRequest.world, .request, none, [], ahead, some w.followRequest.ending⟩
  /-- The tick comes to its end. -/
  | close {w : World τ} {ahead : List (Instance τ)} :
      Moved ⟨w, .close, none, [], ahead, none⟩
        ⟨{ w with toasts := w.toasts.advance w.clock.delta, keys := w.keys.forgetEdges }, .close, none, [],
          ahead, some .finished⟩

private theorem walkOn_moved (w : World τ) (phase : Phase) (walk : Walking) (agenda : List (Turn τ))
    (ahead : List (Instance τ)) :
    Moved ⟨w, phase, some walk, agenda, ahead, none⟩
      (walkOn ⟨w, phase, some walk, agenda, ahead, none⟩ walk) := by
  obtain ⟨v, steps, frames⟩ := walk
  cases steps with
  | zero => exact .finish (.inl rfl)
  | succ steps =>
    simp only [walkOn]
    split
    next strode => exact .walk (World.stride_strode strode)
    next strode =>
      cases World.stride_strode strode with
      | done => exact .finish (.inr rfl)
    next strode => exact .park (World.stride_strode strode)
    next strode => exact .halt (World.stride_strode strode)
    next strode => exact .fail (World.stride_strode strode)

/-- A turn is passed over, dropped, or taken. -/
private theorem take_moved (w : World τ) (phase : Phase) (turn : Turn τ) (rest : List (Turn τ))
    (ahead : List (Instance τ)) :
    Moved ⟨w, phase, none, turn :: rest, ahead, none⟩
      (take ⟨w, phase, none, turn :: rest, ahead, none⟩ turn rest) := by
  cases turn with
  | start v =>
    simp only [take]
    split
    next barred => exact .pass (.inl barred)
    next free =>
      split
      next absent => exact .pass (.inr absent)
      next body found => exact .start (by simpa using free) found
  | resume actor object wait =>
    simp only [take]
    split
    next destroyed => exact .drop destroyed
    next present => exact .resume (by simpa using present) rfl

/-- When all turns are over the phase goes on with the next instance, or the next phase begins. -/
private theorem goOn_moved (w : World τ) (phase : Phase) (ahead : List (Instance τ)) :
    Moved ⟨w, phase, none, [], ahead, none⟩ (goOn ⟨w, phase, none, [], ahead, none⟩) := by
  cases phase with
  | create =>
    cases ahead with
    | nil => exact .created
    | cons i is => exact .create
  | step =>
    cases ahead with
    | nil => exact .stepped
    | cons i is =>
      generalize taken : w.takeDue i.id = handled
      obtain ⟨w', due⟩ := handled
      -- time that passes for waits does not change the program
      have same : w'.invocations i none (· == .step) = w.invocations i none (· == .step) := by
        refine invocations_program ?_ i none _
        simp only [World.takeDue] at taken
        split at taken <;> cases taken <;> rfl
      simp only [goOn, taken, same]
      exact .step taken
  | collision => exact .collided
  | custom rounds =>
    cases rounds with
    | zero => exact .handled (.inl rfl)
    | succ rounds =>
      simp only [goOn]
      split
      next empty => exact .handled (.inr (by simpa using empty))
      next asked => exact .handle rfl (by simpa using asked) rfl
  | commit => exact .commit
  | transition =>
    simp only [goOn, settle]
    split
    next finished => exact .transition finished
    next failed => exact .transitionFailed failed
  | request =>
    simp only [goOn, settle]
    split
    next finished => exact .request finished
    next failed => exact .requestFailed failed
  | close => exact .close

/-- Every step is one of those moves. -/
theorem step_moved {m next : Moment τ} (stepped : m.step = some next) : Moved m next := by
  obtain ⟨w, phase, walking, agenda, ahead, ending⟩ := m
  cases ending with
  | some _ => cases stepped
  | none =>
    cases walking with
    | some walk => cases stepped; exact walkOn_moved w phase walk agenda ahead
    | none =>
      cases agenda with
      | cons turn rest => cases stepped; exact take_moved w phase turn rest ahead
      | nil => cases stepped; exact goOn_moved w phase ahead

/-- Only a tick that has not come to its end goes on. -/
theorem Moved.running {m next : Moment τ} (moved : Moved m next) : m.ending = none := by
  cases moved <;> rfl

/-- What holds at the first moment and is kept by every step holds at every moment. -/
theorem Steps.invariant {P : Moment τ → Prop} {m last : Moment τ} (steps : Steps m last) (first : P m)
    (kept : ∀ {m next : Moment τ}, Moved m next → P m → P next) : P last := by
  induction steps with
  | refl => exact first
  | tail _ moved ih => exact kept (step_moved moved) ih

/-- What no step inside a tick changes. -/
structure SameGame (w w' : World τ) : Prop where
  settings : w'.settings = w.settings := by rfl
  project : w'.project = w.project := by rfl
  program : w'.program = w.program := by rfl
  clock : w'.clock = w.clock := by rfl

private theorem strode_sameGame {w w' : World τ} {v : Invocation} {frames : List Frame} {stride : Stride τ}
    (strode : World.Strode v w frames w' stride) : SameGame w w' := by
  obtain ⟨w₀, status, entries, change, rfl, _⟩ := strode.acted
  exact ⟨change.settings, change.project, change.program, change.clock⟩

omit [Scalar τ] in
private theorem sameRun_sameGame {w w' : World τ} (same : w.SameRun w') : SameGame w w' :=
  ⟨same.settings, same.project, same.program, same.clock⟩

/-- No step changes the game that is played. -/
theorem Moved.sameGame {m next : Moment τ} (moved : Moved m next) : SameGame m.world next.world := by
  cases moved with
  | walk strode => exact strode_sameGame strode
  | park strode =>
    have same := strode_sameGame strode
    exact ⟨same.settings, same.project, same.program, same.clock⟩
  | halt strode => exact strode_sameGame strode
  | fail strode => exact strode_sameGame strode
  | step taken =>
    simp only [World.takeDue] at taken
    split at taken <;> cases taken <;> exact {}
  | handle _ _ taken => subst taken; exact {}
  | commit => exact sameRun_sameGame (World.commit_sameRun _)
  | transition _ | transitionFailed _ => exact sameRun_sameGame (World.stepTransition_sameRun _)
  | request _ | requestFailed _ => exact sameRun_sameGame (World.followRequest_sameRun _)
  | finish _ | pass _ | drop _ | start _ _ | resume _ _ | create | created | stepped | collided
  | handled _ | close => exact {}

theorem Steps.sameGame {m last : Moment τ} (steps : Steps m last) : SameGame m.world last.world := by
  refine steps.invariant (P := fun next => SameGame m.world next.world) {} fun moved same => ?_
  have kept := moved.sameGame
  exact ⟨kept.settings.trans same.settings, kept.project.trans same.project,
    kept.program.trans same.program, kept.clock.trans same.clock⟩

/-! ### what a step notes -/

/-- What a step can note, and what it is then about. -/
inductive Notes (m next : Moment τ) : Happening τ → Prop
  | performed {v : Invocation} {steps : Nat} {frames : List Frame} {action : Action} :
      m.walking = some ⟨v, steps, frames⟩ → Notes m next (.performed v action)
  | suspended {v : Invocation} {steps : Nat} {frames : List Frame} {wait : Wait τ} :
      m.walking = some ⟨v, steps, frames⟩ →
      wait.slot = v.slot → wait.elapsed = 0 → wait.issued = m.world.clock.tick →
      (∀ i ∈ next.world.instances, i.id = v.actor → wait ∈ i.waits) →
      Notes m next (.suspended v wait)
  | started {v : Invocation} {rest : List (Turn τ)} : m.walking = none → m.agenda = .start v :: rest →
      m.world.bars v = false → Notes m next (.started v)
  | resumed {actor object : Nat} {wait : Wait τ} {partner : Option Nat} {rest : List (Turn τ)} :
      m.walking = none → m.agenda = .resume actor object wait :: rest →
      m.world.isDestroyed actor = false →
      Notes m next (.resumed ⟨actor, object, wait.slot, partner⟩ wait)
  | handled {emits : List Emit} : m.walking = none → Notes m next (.handled emits)

private theorem strode_notes {m next : Moment τ} {v : Invocation} {steps : Nat} {frames : List Frame}
    {stride : Stride τ} (walking : m.walking = some ⟨v, steps, frames⟩)
    (strode : World.Strode v m.world frames next.world stride) :
    ∃ entries, next.world.journal = entries ++ m.world.journal ∧ (∀ h ∈ entries, Notes m next h) ∧
      (m.walking = none → entries.length ≤ 1) := by
  obtain ⟨w₀, status, entries, change, same, performed⟩ := strode.acted
  refine ⟨entries, by rw [same, ← change.journal], fun h listed => ?_, fun idle => ?_⟩
  · obtain ⟨action, rfl⟩ := performed h listed
    exact .performed walking
  · rw [walking] at idle
    cases idle

/-- A walk that waits notes its actions, and then the wait. -/
private theorem park_notes {m next : Moment τ} {v : Invocation} {steps : Nat} {frames left : List Frame}
    {duration : τ} {w' : World τ} (walking : m.walking = some ⟨v, steps, frames⟩)
    (strode : World.Strode v m.world frames w' (.stop (.suspended duration left)))
    (parked : next.world = w'.park v duration left) :
    ∃ entries, next.world.journal = entries ++ m.world.journal ∧ (∀ h ∈ entries, Notes m next h) ∧
      (m.walking = none → entries.length ≤ 1) := by
  obtain ⟨w₀, status, entries, change, rfl, performed⟩ := strode.acted
  let wait : Wait τ := ⟨v.slot, left, duration, 0, w₀.clock.tick, v.partner⟩
  have journal : next.world.journal = .suspended v wait :: (entries ++ w₀.journal) := by rw [parked]; rfl
  refine ⟨.suspended v wait :: entries, by rw [journal, change.journal]; rfl, fun h listed => ?_,
    fun idle => ?_⟩
  · rcases List.mem_cons.mp listed with rfl | listed
    · refine .suspended walking rfl rfl (congrArg Clock.tick change.clock) fun i member mine => ?_
      -- the instance of the walk holds the wait, and only this instance has changed
      rw [parked] at member
      obtain ⟨j, present, rfl⟩ := List.mem_map.mp member
      split
      · exact List.mem_append_right _ (List.mem_singleton_self wait)
      next other =>
        rw [if_neg other] at mine
        exact absurd mine other
    · obtain ⟨action, rfl⟩ := performed h listed
      exact .performed walking
  · rw [walking] at idle
    cases idle

/-- A step adds to the journal. Unless it is a step of a walk, it notes at most one thing. -/
theorem Moved.notes {m next : Moment τ} (moved : Moved m next) :
    ∃ entries, next.world.journal = entries ++ m.world.journal ∧ (∀ h ∈ entries, Notes m next h) ∧
      (m.walking = none → entries.length ≤ 1) := by
  have silent (same : next.world.journal = m.world.journal) :
      ∃ entries, next.world.journal = entries ++ m.world.journal ∧ (∀ h ∈ entries, Notes m next h) ∧
        (m.walking = none → entries.length ≤ 1) :=
    ⟨[], same, fun _ listed => absurd listed List.not_mem_nil, fun _ => Nat.zero_le _⟩
  have one {h : Happening τ} (noted : next.world.journal = h :: m.world.journal) (notes : Notes m next h) :
      ∃ entries, next.world.journal = entries ++ m.world.journal ∧ (∀ h ∈ entries, Notes m next h) ∧
        (m.walking = none → entries.length ≤ 1) := by
    refine ⟨[h], noted, fun h' listed => ?_, fun _ => Nat.le_refl _⟩
    cases List.mem_singleton.mp listed
    exact notes
  -- a walk notes what it performs; the other steps note one thing or nothing
  cases moved with
  | walk strode | halt strode | fail strode => exact strode_notes rfl strode
  | park strode => exact park_notes rfl strode rfl
  | start free _ => exact one rfl (.started rfl rfl free)
  | resume present _ => exact one rfl (.resumed rfl rfl present)
  | handle _ _ taken => subst taken; exact one rfl (.handled rfl)
  | step taken =>
    simp only [World.takeDue] at taken
    split at taken <;> cases taken <;> exact silent rfl
  | commit => exact silent (World.commit_sameRun _).journal
  | transition _ | transitionFailed _ => exact silent (World.stepTransition_sameRun _).journal
  | request _ | requestFailed _ => exact silent (World.followRequest_sameRun _).journal
  | finish _ | pass _ | drop _ | create | created | stepped | collided | handled _ | close =>
    exact silent rfl

/-- A step that notes one thing knows what it notes. -/
theorem Moved.noted {m next : Moment τ} (moved : Moved m next) {h : Happening τ}
    (noted : next.world.journal = h :: m.world.journal) : Notes m next h := by
  obtain ⟨entries, journal, notes, _⟩ := moved.notes
  have only : entries = [h] := by
    rw [journal] at noted
    exact List.append_cancel_right (noted.trans List.singleton_append.symm)
  exact notes h (only ▸ List.mem_singleton_self h)

/-- What a tick has noted was noted by one of its steps. -/
theorem steps_noted {w : World τ} {delta : τ} {m : Moment τ} {h : Happening τ}
    (inside : Steps (begin w delta) m) (noted : h ∈ m.world.journal) :
    ∃ before after entries, Steps (begin w delta) before ∧ before.step = some after ∧
      after.world.journal = entries ++ before.world.journal ∧ h ∈ entries ∧ Notes before after h := by
  induction inside with
  | refl =>
    rw [begin_world] at noted
    cases noted
  | @tail m next inside stepped ih =>
    -- either this step has noted it, or an earlier one
    obtain ⟨entries, journal, notes, _⟩ := (step_moved stepped).notes
    rw [journal] at noted
    rcases List.mem_append.mp noted with new | old
    · exact ⟨m, next, entries, inside, stepped, journal, new, notes h new⟩
    · exact ih old

/-- A tick changes neither the project nor the program, and it advances the clock once, at its start. -/
theorem tick_sameGame {w : World τ} {delta : τ} {m : Moment τ} (inside : Steps (begin w delta) m) :
    m.world.project = w.project ∧ m.world.program = w.program ∧
      m.world.clock = w.clock.advance delta := by
  have same := inside.sameGame
  rw [begin_world] at same
  exact ⟨same.project, same.program, same.clock⟩

end Moment

end Gameplay
