import Gameplay.Snapshot

/-!
# Calls of a host

A host drives a game by a finite sequence of calls, in any order. The games that it can bring about are
the `Game.new settings` after such a sequence.

## Main result

`after_world`: what holds of the world before any run, and is kept by every part of a call, holds of
every world that a host can bring about.
-/

namespace Gameplay

inductive HostCall (τ : Type)
  | start (project : Project) (room : String)
  | tick (delta : τ)
  | press (key : String)
  | release (key : String)
  | releaseAll
  | stop
  | reset
  | takeSounds
  | snapshot

inductive Reply (τ : Type)
  | done
  | result (fault : Option (Fault τ))
  | sounds (ids : List String)
  | seen (snapshot : Snapshot τ)

def Reply.fault? {τ : Type} : Reply τ → Option (Fault τ)
  | .result fault => fault
  | _ => none

namespace Game

variable {τ : Type} [Scalar τ]

/-- The game after a call, and what the call gives back. -/
def call (g : Game τ) : HostCall τ → Game τ × Reply τ
  | .start project room => ((g.start project room).1, .result (g.start project room).2)
  | .tick delta => ((g.tick delta).1, .result (g.tick delta).2)
  | .press key => (g.press key, .done)
  | .release key => (g.release key, .done)
  | .releaseAll => (g.releaseAll, .done)
  | .stop => (g.stop, .done)
  | .reset => (g.reset, .done)
  | .takeSounds => (g.takeSounds.1, .sounds g.takeSounds.2)
  | .snapshot => (g, .seen g.snapshot)

def after (g : Game τ) (calls : List (HostCall τ)) : Game τ :=
  calls.foldl (fun g c => (g.call c).1) g

def replies : Game τ → List (HostCall τ) → List (Reply τ)
  | _, [] => []
  | g, c :: calls => (g.call c).2 :: replies (g.call c).1 calls

theorem after_cons (g : Game τ) (c : HostCall τ) (calls : List (HostCall τ)) :
    g.after (c :: calls) = (g.call c).1.after calls := rfl

/-- Calls can be carried out in two parts. -/
theorem after_append (g : Game τ) (calls later : List (HostCall τ)) :
    g.after (calls ++ later) = (g.after calls).after later :=
  List.foldl_append

/-- What every call keeps is kept by all calls together. -/
theorem after_invariant {P : Game τ → Prop} (kept : ∀ (g : Game τ) (c : HostCall τ), P g → P (g.call c).1)
    {g : Game τ} (first : P g) (calls : List (HostCall τ)) : P (g.after calls) := by
  induction calls generalizing g with
  | nil => exact first
  | cons c calls ih => exact ih (kept g c first)

/-- A tick of this length plays: the length is fit for a tick and the run is live. -/
structure Plays (g : Game τ) (delta : τ) : Prop where
  finite : Scalar.isFinite delta = true
  forward : ¬ delta < 0
  live : g.state.isLive = true

/-- A tick that plays gives the world of `World.tick`, which a fault has stopped. -/
theorem Plays.tick {g : Game τ} {delta : τ} (plays : g.Plays delta) :
    g.tick delta = settle (g.world.tick delta) g.faults := by
  simp only [Game.tick, plays.finite, plays.forward, plays.live, Bool.not_true, Bool.false_eq_true,
    if_false]

/-- The clean world of a new run, into which a project has been loaded. -/
def loaded (w : World τ) (project : Project) (program : Program) : World τ :=
  { w.reset with
    project := project
    program := program
    globals := .ofDeclarations project.declarations
    random := .ofSeed (w.reset.settings.seed.getD 0) }

/-- A property of worlds that holds before any run and is kept by every part of a call. -/
structure Kept (Q : World τ → Prop) : Prop where
  initial : ∀ settings random, Q (.initial settings random)
  enter : ∀ (w : World τ) (project : Project) (program : Program) (room : String),
    Program.compile project w.settings.spriteSize = .ok program →
      Q ((loaded w project program).enterRoom room).world
  run : ∀ w, Q w → Q { w with status := { w.status with state := .running } }
  tick : ∀ (w : World τ) (delta : τ), w.status.state.isLive = true → Q w → Q (w.tick delta).world
  stop : ∀ w, Q w → Q w.stop
  keys : ∀ (w : World τ) (keys : Keyboard), Q w → Q { w with keys := keys }
  sounds : ∀ w, Q w → Q { w with sounds := [] }

namespace Kept

variable {Q : World τ → Prop}

private theorem settle (kept : Kept Q) {p : Played τ} (faults : Nat) (world : Q p.world) :
    Q (Game.settle p faults).1.world := by
  unfold Game.settle
  split
  · exact kept.stop _ world
  · exact world

private theorem start (kept : Kept Q) (g : Game τ) (project : Project) (room : String) :
    Q (g.start project room).1.world := by
  unfold Game.start
  dsimp only
  split
  · -- a project that does not compile stops a world without a run
    exact kept.stop _ (kept.initial ..)
  next program compiled =>
    refine kept.settle _ ?_
    have entered := kept.enter g.world project program room compiled
    simp only [Played.andThen]
    split
    · exact kept.run _ entered
    · exact entered

private theorem tickCall (kept : Kept Q) (g : Game τ) (delta : τ) (world : Q g.world) :
    Q (g.tick delta).1.world := by
  unfold Game.tick
  split
  · exact kept.stop _ world
  · split
    · exact kept.stop _ world
    · split
      · exact world
      next live => exact kept.settle _ (kept.tick _ _ (by simpa [Game.state] using live) world)

theorem call (kept : Kept Q) (g : Game τ) (c : HostCall τ) (world : Q g.world) :
    Q (g.call c).1.world := by
  cases c with
  | start project room => exact kept.start g project room
  | tick delta => exact kept.tickCall g delta world
  | press key => exact kept.keys _ _ world
  | release key => exact kept.keys _ _ world
  | releaseAll => exact kept.keys _ _ world
  | stop => exact kept.stop _ world
  | reset => exact kept.initial ..
  | takeSounds => exact kept.sounds _ world
  | snapshot => exact world

end Kept

/-- What holds before any run and is kept by every part of a call holds whatever the host calls. -/
theorem after_world {Q : World τ → Prop} (kept : Kept Q) (settings : Settings)
    (calls : List (HostCall τ)) : Q ((new settings : Game τ).after calls).world :=
  after_invariant (P := fun g => Q g.world) kept.call (kept.initial ..) calls

end Game

end Gameplay
