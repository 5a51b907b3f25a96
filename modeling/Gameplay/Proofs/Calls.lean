import Gameplay.Proofs.Host
import Gameplay.Proofs.Turns

/-!
# What a call makes of a world

A call of a host does one of eight things to the world of a game. A fault stops the world that it was
found in, so whatever fails ends in `World.stop`.

## Main results

`call_called`: these eight are all.
`after_called`: what holds of a new game and is kept by each of them holds whatever the host calls.
-/

namespace Gameplay

variable {τ : Type} [Scalar τ]

/-- What a call of a host makes of a world. -/
inductive World.Called (w : World τ) : World τ → Prop
  /-- The call is about keys or sounds, if about anything. -/
  | aside (keys : Keyboard) (sounds : List String) : Called w { w with keys := keys, sounds := sounds }
  | stopped : Called w w.stop
  | reset : Called w w.reset
  /-- A project is started that does not compile. -/
  | refused : Called w w.reset.stop
  | entered {project : Project} {program : Program} {room : String} {p : Played τ} :
      Program.compile project w.settings.spriteSize = .ok program →
      (Game.loaded w project program).enterRoom room = p → p.ending = .finished →
      Called w { p.world with status := { p.world.status with state := .running } }
  /-- A run is started in a room that cannot be entered. -/
  | barred {project : Project} {program : Program} {room : String} {p : Played τ} :
      Program.compile project w.settings.spriteSize = .ok program →
      (Game.loaded w project program).enterRoom room = p → p.ending ≠ .finished →
      Called w p.world.stop
  | ticked {delta : τ} : Scalar.isFinite delta = true → ¬ delta < 0 → w.status.state.isLive = true →
      (∀ cause, (w.tick delta).ending ≠ .failed cause) → Called w (w.tick delta).world
  | failed {delta : τ} {cause : Dangling} : w.status.state.isLive = true →
      (w.tick delta).ending = .failed cause → Called w (w.tick delta).world.stop

theorem World.tick_settings (w : World τ) (delta : τ) :
    (w.tick delta).world.settings = w.settings := by
  obtain ⟨last, inside, world, _⟩ := Moment.tick_passes w delta
  rw [← world, inside.sameGame.settings, Moment.begin_world]

/-- A tick advances the clock once, whatever else happens in it. -/
theorem World.tick_clock (w : World τ) (delta : τ) :
    (w.tick delta).world.clock = w.clock.advance delta := by
  obtain ⟨last, inside, world, _⟩ := Moment.tick_passes w delta
  rw [← world, inside.sameGame.clock, Moment.begin_world]

namespace Game

private theorem start_called (g : Game τ) (project : Project) (room : String) :
    g.world.Called (g.start project room).1.world := by
  simp only [start]
  split
  · exact .refused
  next program found =>
    have compiled : Program.compile project g.world.settings.spriteSize = .ok program := found
    obtain ⟨p, entering⟩ : ∃ p, (loaded g.world project program).enterRoom room = p := ⟨_, rfl⟩
    have unhalted := World.enterRoom_unhalted (loaded g.world project program) room
    unfold loaded at entering unhalted
    rw [entering] at unhalted ⊢
    cases ended : p.ending with
    | finished =>
      simp only [Played.andThen, ended, settle, Played.finished]
      exact .entered compiled entering ended
    | halted =>
      -- only an action ends the game, and no action is performed yet
      exact absurd ended unhalted
    | failed cause =>
      simp only [Played.andThen, ended, settle, fail]
      apply World.Called.barred compiled entering
      simp [ended]

/-- A start that succeeds has compiled the project and entered the room, and the run goes. -/
theorem start_enters {g : Game τ} {project : Project} {room : String}
    (succeeds : (g.start project room).2 = none) :
    ∃ program w, Program.compile project g.world.settings.spriteSize = .ok program ∧
      (loaded g.world project program).enterRoom room = .finished w ∧
      (g.start project room).1.world = { w with status := { w.status with state := .running } } := by
  simp only [start] at succeeds ⊢
  split at succeeds
  · cases succeeds
  next program compiled =>
    obtain ⟨⟨w, ending⟩, entered⟩ : ∃ p, (loaded g.world project program).enterRoom room = p := ⟨_, rfl⟩
    -- an entry into a room does not halt, so it has finished unless it failed
    have unhalted := World.enterRoom_unhalted (loaded g.world project program) room
    refine ⟨program, w, compiled, ?_⟩
    unfold loaded at entered unhalted ⊢
    rw [entered] at succeeds unhalted ⊢
    cases ending with
    | finished => exact ⟨rfl, rfl⟩
    | halted => exact absurd rfl unhalted
    | failed cause => cases succeeds

private theorem tick_called (g : Game τ) (delta : τ) : g.world.Called (g.tick delta).1.world := by
  by_cases plays : g.Plays delta
  · rw [plays.tick]
    unfold settle
    split
    next cause failed => exact .failed plays.live failed
    next unfailed => exact .ticked plays.finite plays.forward plays.live unfailed
  · -- an invalid length stops the run, and a run that is over stays as it is
    simp only [tick]
    split
    · exact .stopped
    next finite =>
      split
      · exact .stopped
      next forward =>
        split
        · exact .aside _ _
        next live => exact absurd ⟨by simpa using finite, forward, by simpa using live⟩ plays

theorem call_called (g : Game τ) (c : HostCall τ) : g.world.Called (g.call c).1.world := by
  cases c with
  | start project room => exact start_called g project room
  | tick delta => exact tick_called g delta
  | stop => exact .stopped
  | reset => exact .reset
  | press _ | release _ | releaseAll | takeSounds | snapshot => exact .aside _ _

/-- What holds of the world of a new game, and is kept by whatever a call makes of a world, holds whatever
the host calls. -/
theorem after_called {Q : World τ → Prop} {settings : Settings}
    (first : Q (new settings : Game τ).world) (kept : ∀ w w', w.Called w' → Q w → Q w')
    (calls : List (HostCall τ)) : Q ((new settings : Game τ).after calls).world := by
  apply after_invariant (P := fun g => Q g.world)
  · intro g c holds
    exact kept _ _ (g.call_called c) holds
  · exact first

/-- Game time passes at the pace of real time. -/
theorem after_scale (settings : Settings) (calls : List (HostCall τ)) :
    ((new settings : Game τ).after calls).world.clock.scale = 1 := by
  apply after_called (Q := fun w => w.clock.scale = 1)
  · rfl
  · intro w w' called same
    cases called with
    | aside _ _ | stopped => exact same
    | reset | refused => rfl
    | @entered project program room p _ entering _ =>
      -- a room is entered without a change to the clock
      have clock := (World.enterRoom_sameRun (loaded w project program) room).clock
      rw [entering] at clock
      exact congrArg Clock.scale clock
    | @barred project program room p _ entering _ =>
      have clock := (World.enterRoom_sameRun (loaded w project program) room).clock
      rw [entering] at clock
      exact congrArg Clock.scale clock
    | ticked _ _ _ _ | failed _ _ => exact (congrArg Clock.scale (World.tick_clock w _)).trans same

theorem after_settings (settings : Settings) (calls : List (HostCall τ)) :
    ((new settings : Game τ).after calls).world.settings = settings := by
  apply after_called (Q := fun w => w.settings = settings)
  · rfl
  · rintro w w' called rfl
    cases called with
    | aside _ _ | stopped | reset | refused => rfl
    | entered _ entering _ => exact entering ▸ (World.enterRoom_sameRun _ _).settings
    | barred _ entering _ => exact entering ▸ (World.enterRoom_sameRun _ _).settings
    | ticked _ _ _ _ | failed _ _ => exact World.tick_settings w _

end Game

end Gameplay
