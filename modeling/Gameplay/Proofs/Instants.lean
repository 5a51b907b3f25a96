import Gameplay.Proofs.Closing
import Gameplay.Proofs.WaitTime

/-!
# The instants of a run

A run is seen between the calls of its host and at the moments inside the ticks that they play. Both are
instants of the run, and one comes after the other until another run begins.

## Main results

`Next.becomes`: what one step of a run makes of its world.
`Later.keeps`: what each of these keeps holds at every later instant.
`later_after`: the games that a host brings about without beginning another run are later instants.
-/

namespace Gameplay

variable {τ : Type}

/-- An instant of a run: between two calls, or at a moment of a tick that a call plays. -/
inductive Instant (τ : Type)
  | between (g : Game τ)
  | inside (g : Game τ) (delta : τ) (m : Moment τ)

/-- What one step of a run makes of its world. -/
inductive World.Becomes [Scalar τ] (w : World τ) : World τ → Prop
  | aside (keys : Keyboard) (sounds : List String) : Becomes w { w with keys := keys, sounds := sounds }
  | stopped : Becomes w w.stop
  | opened (delta : τ) : Becomes w (w.opened delta)
  | moved {m next : Moment τ} : m.Coherent → Moment.Moved m next → m.world = w → Becomes w next.world

namespace World

variable [Scalar τ] {w w' : World τ}

theorem Becomes.sameProgram (becomes : w.Becomes w') : w'.project = w.project ∧ w'.program = w.program := by
  cases becomes with
  | aside _ _ | stopped | opened _ => exact ⟨rfl, rfl⟩
  | moved _ moved same => exact same ▸ ⟨moved.sameGame.project, moved.sameGame.program⟩

/-- What is declared stays so from one instant to the next. -/
theorem Becomes.declared (becomes : w.Becomes w') (declared : w.Declared) : w'.Declared := by
  cases becomes with
  | aside _ _ | opened _ =>
    exact ⟨declared.globals, declared.locals, declared.room, declared.request, declared.destination⟩
  | stopped =>
    refine ⟨declared.globals, fun i member o found => ?_, declared.room, nofun, nofun⟩
    obtain ⟨j, present, rfl⟩ := List.mem_map.mp member
    exact declared.locals j present o found
  | moved coherent moved same => exact moved.declared coherent (same ▸ declared)

end World

namespace Moment

variable [Scalar τ]

/-- A moment at which a tick has ended has the world and the ending of the tick. -/
theorem Steps.at_end {w : World τ} {delta : τ} {m : Moment τ} {ending : Ending}
    (inside : Steps (.begin w delta) m) (ended : m.ending = some ending) :
    m.world = (w.tick delta).world ∧ (w.tick delta).ending = ending := by
  obtain ⟨last, later, world, same⟩ := tick_goes_on inside
  rw [later.ended ended] at world same
  exact ⟨world, Option.some.inj (same.symm.trans ended)⟩

end Moment

namespace Instant

def world : Instant τ → World τ
  | .between g => g.world
  | .inside _ _ m => m.world

variable [Scalar τ]

/-- From one instant of a run to the next. A tick that plays is passed moment by moment. -/
inductive Next : Instant τ → Instant τ → Prop
  | call {g : Game τ} {c : HostCall τ} : c.staysInRun = true → g.length? c = none →
      Next (.between g) (.between (g.call c).1)
  | begins {g : Game τ} {delta : τ} : g.Plays delta →
      Next (.between g) (.inside g delta (.begin g.world delta))
  | goes {g : Game τ} {delta : τ} {m next : Moment τ} : m.step = some next →
      Next (.inside g delta m) (.inside g delta next)
  | ends {g : Game τ} {delta : τ} {m : Moment τ} {ending : Ending} : m.ending = some ending →
      Next (.inside g delta m) (.between (g.tick delta).1)

/-- From one instant to the same or a later one of the run. -/
abbrev Later : Instant τ → Instant τ → Prop := Relation.ReflTransGen Next

/-- A coherent world, or a moment of a tick that plays from one. -/
def Coherent : Instant τ → Prop
  | .between g => g.world.Coherent
  | .inside g delta m => g.world.Coherent ∧ g.Plays delta ∧ Moment.Steps (.begin g.world delta) m

variable {p q : Instant τ}

theorem Coherent.at_world (coherent : p.Coherent) : p.world.Coherent := by
  cases p with
  | between g => exact coherent
  | inside g delta m => exact (Moment.steps_coherent coherent.1 coherent.2.2).world

theorem Next.coherent (step : Next p q) (coherent : p.Coherent) : q.Coherent := by
  cases step with
  | call _ _ => exact Game.kept_coherent.call _ _ coherent
  | begins plays => exact ⟨coherent, plays, .refl⟩
  | goes stepped => exact ⟨coherent.1, coherent.2.1, coherent.2.2.tail stepped⟩
  | @ends g delta _ _ _ => exact Game.kept_coherent.call g (.tick delta) coherent.1

theorem Later.coherent (later : Later p q) (coherent : p.Coherent) : q.Coherent := by
  induction later with
  | refl => exact coherent
  | tail _ step ih => exact step.coherent ih

/-- From one instant to the next the world becomes what a step or a call makes of it. -/
theorem Next.becomes (step : Next p q) (coherent : p.Coherent) : p.world.Becomes q.world := by
  cases step with
  | @call g c stays unplayed =>
    rcases g.call_cases stays with ⟨delta, rfl, plays⟩ | ⟨_, stopped | ⟨keys, sounds, aside⟩⟩
    · rw [Game.length?, if_pos plays] at unplayed
      cases unplayed
    · simp only [world, stopped]
      exact .stopped
    · simp only [world, aside]
      exact .aside keys sounds
  | @begins g delta _ =>
    simp only [world, Moment.begin_world]
    exact .opened delta
  | @goes g delta m next stepped =>
    exact .moved (Moment.steps_coherent coherent.1 coherent.2.2) (Moment.step_moved stepped) rfl
  | @ends g delta m ending ended =>
    obtain ⟨_, plays, inside⟩ := coherent
    -- the call gives the world of the last moment, or stops it if the tick has failed
    simp only [world, plays.tick, Game.settle, (inside.at_end ended).1]
    split
    · exact .stopped
    · exact .aside _ _

/-- What no step of a run loses holds at every later instant. -/
theorem Later.keeps {P : World τ → Prop} (later : Later p q) (coherent : p.Coherent) (first : P p.world)
    (kept : ∀ {w w' : World τ}, w.Becomes w' → P w → P w') : P q.world := by
  induction later with
  | refl => exact first
  | tail before step ih => exact kept (step.becomes (Later.coherent before coherent)) ih

/-- A tick that plays leads from the game before it to the game after it. -/
theorem later_tick {g : Game τ} {delta : τ} (plays : g.Plays delta) :
    Later (.between g) (.between (g.tick delta).1) := by
  obtain ⟨last, inside, _, ended⟩ := Moment.tick_passes g.world delta
  have through : ∀ m, Moment.Steps (.begin g.world delta) m → Later (.between g) (.inside g delta m) := by
    intro m steps
    induction steps with
    | refl => exact .single (.begins plays)
    | tail _ stepped ih => exact ih.tail (.goes stepped)
  exact (through last inside).tail (.ends ended)

/-- Calls of one run lead from one instant of it to a later one. -/
theorem later_after (g : Game τ) {calls : List (HostCall τ)} (stay : ∀ c ∈ calls, c.staysInRun = true) :
    Later (.between g) (.between (g.after calls)) := by
  apply Game.after_stays (P := fun after => Later (.between g) (.between after)) _ .refl stay
  intro before c stays later
  rcases before.call_cases stays with ⟨delta, rfl, plays⟩ | ⟨unplayed, _⟩
  · exact later.trans (later_tick plays)
  · exact later.tail (.call stays unplayed)

end Instant

end Gameplay
