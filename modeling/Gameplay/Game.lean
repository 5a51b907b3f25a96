import Gameplay.Phases
import Gameplay.Rooms

/-!
# Games

A `Game` is what a host drives: it starts runs, lets them tick, and passes key events on. A tick
goes through its phases in this order: create events; waits that end and step events; movement;
collision events; rounds of custom events; destroys and spawns; the transition and the room change;
toasts and key edges. While a transition runs, the phases of events and movement are left out. An
action that ends the game ends the tick where it stands.

Every fault is fatal to the run: the run stops and the fault is counted.
-/

namespace Gameplay

/-- Why a call of the host failed. -/
inductive Fault (τ : Type)
  | dangling (cause : Dangling)
  | negativeDelta (delta : τ)
  | nonFiniteDelta
deriving DecidableEq

namespace Fault

variable {τ : Type}

/-- Whether the document is to blame. -/
def isConfiguration : Fault τ → Bool
  | .dangling _ => true
  | _ => false

def message : Fault Float → String
  | .dangling cause => cause.message
  | .negativeDelta delta => "negative tick delta: " ++ plainText delta ++ "ms"
  | .nonFiniteDelta => "tick delta is not a finite number"

end Fault

namespace World

variable {τ : Type} [Scalar τ]

/-- Stops the run. Instances stay where they are; waits, key state, toasts, the transition and
pending effects are dropped. -/
def stop (w : World τ) : World τ :=
  { w with
    instances := w.instances.map fun i => { i with waits := [] }
    keys := .empty
    toasts := .empty
    transition := .idle
    pending := .none
    status := { w.status with state := .stopped } }

/-- Forgets the run. Only the settings and the random generator stay. -/
def reset (w : World τ) : World τ := .initial w.settings w.random

def eventPhases (w : World τ) : Played τ :=
  (((w.createPhase.andThen stepPhase).andThen fun w => collisionPhase w.applyVelocities)).andThen
    customPhase

/-- The end of a tick: pending effects, the room, toasts and key edges. -/
def closeTick (w : World τ) : Played τ :=
  ((w.commit.stepTransition).andThen followRequest).andThen fun w =>
    .finished { w with toasts := w.toasts.advance w.clock.delta, keys := w.keys.forgetEdges }

/-- A tick of a live run. -/
def tick (w : World τ) (delta : τ) : Played τ :=
  let w := { w with clock := w.clock.advance delta, journal := [] }
  (if w.transition.isRunning then .finished w else w.eventPhases).andThen closeTick

end World

/-- A game with the number of faults since it was made. -/
structure Game (τ : Type) where
  world : World τ
  faults : Nat

namespace Game

variable {τ : Type} [Scalar τ]

/-- A game before its first run. Without a seed in the settings, draws follow from seed zero. -/
def new (settings : Settings) : Game τ := ⟨.initial settings (.ofSeed (settings.seed.getD 0)), 0⟩

def state (g : Game τ) : RunState := g.world.status.state

def fail (g : Game τ) (fault : Fault τ) : Game τ × Option (Fault τ) :=
  (⟨g.world.stop, g.faults + 1⟩, some fault)

/-- The game after what was played: a dangling reference is a fault. -/
def settle (played : Played τ) (faults : Nat) : Game τ × Option (Fault τ) :=
  match played.ending with
  | .failed cause => fail ⟨played.world, faults⟩ (.dangling cause)
  | _ => (⟨played.world, faults⟩, none)

/-- Starts a run of a project in a room. Any earlier run is forgotten. -/
def start (g : Game τ) (project : Project) (room : String) : Game τ × Option (Fault τ) :=
  let clean := g.world.reset
  match Program.compile project clean.settings.spriteSize with
  | .error cause => fail ⟨clean, g.faults⟩ (.dangling cause)
  | .ok program =>
    let w := { clean with
      project := project
      program := program
      globals := .ofDeclarations project.declarations
      random := .ofSeed (clean.settings.seed.getD 0) }
    let entered := (w.enterRoom room).andThen fun w =>
      .finished { w with status := { w.status with state := .running } }
    settle entered g.faults

/-- Lets an amount of time pass. Outside a live run only a bad amount has an effect. -/
def tick (g : Game τ) (delta : τ) : Game τ × Option (Fault τ) :=
  if !Scalar.isFinite delta then g.fail .nonFiniteDelta
  else if delta < 0 then g.fail (.negativeDelta delta)
  else if !g.state.isLive then (g, none)
  else settle (g.world.tick delta) g.faults

def onKeys (g : Game τ) (f : Keyboard → Keyboard) : Game τ :=
  { g with world := { g.world with keys := f g.world.keys } }

def press (g : Game τ) (key : String) : Game τ := g.onKeys (·.press key)

def release (g : Game τ) (key : String) : Game τ := g.onKeys (·.release key)

def releaseAll (g : Game τ) : Game τ := g.onKeys (·.releaseAll)

def setTimeScale (g : Game τ) (scale : τ) : Game τ :=
  { g with world := { g.world with clock := { g.world.clock with scale := scale } } }

def stop (g : Game τ) : Game τ := { g with world := g.world.stop }

/-- Stops and forgets the run. Faults stay counted. -/
def reset (g : Game τ) : Game τ := { g with world := g.world.reset }

/-- Takes the sounds asked for since they were last taken, in order. -/
def takeSounds (g : Game τ) : Game τ × List String :=
  ({ g with world := { g.world with sounds := [] } }, g.world.sounds.reverse)

end Game

end Gameplay
