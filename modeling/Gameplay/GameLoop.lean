import Gameplay.Snapshot

/-!
# The game loop

A host measures frames; a game wants ticks of one length. A `Timestep` collects the time of frames
and pays it out in ticks, and a `GameLoop` runs them. A frame counts for at most `maxFrame`, and
pays for at most `maxTicks` ticks; what is owed beyond that is dropped.
-/

namespace Gameplay

/-- Time that is collected, and the length of a tick. -/
structure Timestep (τ : Type) where
  collected : τ
  tick : τ
deriving DecidableEq, Repr

namespace Timestep

variable {τ : Type} [Scalar τ]

def new (tick : τ) : Timestep τ := ⟨0, tick⟩

/-- The time for which a frame counts. -/
def frameTime (frame maxFrame : τ) : τ :=
  if Scalar.isFinite frame then
    if frame < 0 then 0 else if maxFrame < frame then maxFrame else frame
  else 0

def collect (t : Timestep τ) (frame maxFrame : τ) : Timestep τ :=
  { t with collected := t.collected + frameTime frame maxFrame }

/-- Pays out a tick; `none` if too little is collected. -/
def pay? (t : Timestep τ) : Option (Timestep τ) :=
  if t.tick ≤ t.collected then some { t with collected := t.collected - t.tick } else none

def drop (t : Timestep τ) : Timestep τ := { t with collected := 0 }

end Timestep

/-- What a frame gives to the host. -/
inductive Output (τ : Type)
  | play (soundId : String)
  | draw (snapshot : Snapshot τ)

structure GameLoop (τ : Type) where
  game : Game τ
  timestep : Timestep τ
  maxFrame : τ
  maxTicks : Nat

namespace GameLoop

variable {τ : Type} [Scalar τ]

def new (game : Game τ) : GameLoop τ where
  game := game
  timestep := .new (Scalar.ofFloat game.world.settings.tickMs)
  maxFrame := Scalar.ofFloat game.world.settings.maxFrameMs
  maxTicks := game.world.settings.maxTicksPerFrame.toNat

/-- What ticks gave: the loop after them, how many succeeded, their output in order, and the fault
that ended them, if one did. -/
structure Ticked (τ : Type) where
  loop : GameLoop τ
  count : Nat
  outputs : List (Output τ)
  fault : Option (Fault τ)

/-- The output of a tick that has succeeded: its sounds, then a drawing. -/
def present (game : Game τ) : Game τ × List (Output τ) :=
  let (game, sounds) := game.takeSounds
  (game, sounds.map .play ++ [.draw game.snapshot])

/-- Runs up to a number of ticks, while the run is live and time is left. -/
def runTicks (loop : GameLoop τ) : Nat → Ticked τ
  | 0 => ⟨loop, 0, [], none⟩
  | most + 1 =>
    if !loop.game.state.isLive then ⟨loop, 0, [], none⟩
    else match loop.timestep.pay? with
      | none => ⟨loop, 0, [], none⟩
      | some timestep =>
        match loop.game.tick timestep.tick with
        | (game, some fault) => ⟨{ loop with game := game, timestep := timestep }, 0, [], some fault⟩
        | (game, none) =>
          let (game, outputs) := present game
          let rest := runTicks { loop with game := game, timestep := timestep } most
          { rest with count := rest.count + 1, outputs := outputs ++ rest.outputs }

def frame (loop : GameLoop τ) (frame : τ) : Ticked τ :=
  if !loop.game.state.isLive then ⟨{ loop with timestep := loop.timestep.drop }, 0, [], none⟩
  else
    let fed := { loop with timestep := loop.timestep.collect frame loop.maxFrame }
    let ticked := fed.runTicks loop.maxTicks
    -- what is owed beyond the most that a frame may run is dropped
    if ticked.fault.isNone && ticked.count == ticked.loop.maxTicks
        && ticked.loop.timestep.pay?.isSome then
      { ticked with loop := { ticked.loop with timestep := ticked.loop.timestep.drop } }
    else ticked

end GameLoop

end Gameplay
