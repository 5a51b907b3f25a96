import Gameplay.Proofs.Calls
import Gameplay.Proofs.Requests
import Gameplay.Proofs.WaitTime

/-!
# A transition freezes the game

Between calls, the state of the run and the transition say the same, and a live run has no effects
pending. So nothing is left that a tick could do while a transition runs, except to let its time pass.

## Main results

`after_settled`: this holds whatever the host calls.
`tick_frozen`: what a tick does while a transition runs.
`transition_freezes_game`: both for floating-point times.
-/

namespace Gameplay

variable {τ : Type} [Scalar τ]

/-- Times in which a transition takes a while. -/
class Timed (τ : Type) [Scalar τ] : Prop where
  lasts : (0 : τ) < Transition.duration
  zero : ¬ (0 : τ) < 0

instance : Timed Float := ⟨by decide +kernel, by decide +kernel⟩

omit [Scalar τ] in
theorem Transition.isRunning_iff {t : Transition τ} : t.isRunning = true ↔ t.kind ≠ .none := by
  simp [isRunning]

/-- There is no transition, or one that runs, with a room to go to and time left. -/
inductive Transition.Sound : Transition τ → Prop
  | idle : Sound .idle
  | runs {kind : TransitionKind} {remaining : τ} {room : String} : kind ≠ .none → 0 < remaining →
      Sound ⟨kind, remaining, some room⟩

namespace Transition.Sound

variable {t : Transition τ}

/-- A sound transition that runs has a room to go to. -/
theorem bound (sound : t.Sound) : t.Bound := by
  cases sound with
  | idle => exact nofun
  | runs _ _ => exact fun _ => rfl

theorem room (sound : t.Sound) : t.isRunning = true ↔ t.room.isSome = true := by
  cases sound with
  | idle => exact iff_of_false nofun nofun
  | runs kind _ => exact iff_of_true (isRunning_iff.mpr kind) rfl

theorem remaining [Timed τ] (sound : t.Sound) : t.isRunning = true ↔ 0 < t.remaining := by
  cases sound with
  | idle => exact iff_of_false nofun Timed.zero
  | runs kind left => exact iff_of_true (isRunning_iff.mpr kind) left

/-- A sound transition that does not run is none. -/
theorem eq_idle (sound : t.Sound) (still : t.isRunning = false) : t = .idle := by
  cases sound with
  | idle => rfl
  | runs kind _ => exact absurd (still.symm.trans (isRunning_iff.mpr kind)) nofun

theorem onward (sound : t.Sound) (running : t.isRunning = true) {left : τ} (more : 0 < left) :
    Sound { t with remaining := left } := by
  cases sound with
  | idle => cases running
  | runs kind _ => exact .runs kind more

end Transition.Sound

/-- Nothing but custom events is pending. -/
structure Pending.Clear (p : Pending) : Prop where
  destroys : p.destroys = []
  spawns : p.spawns = []
  room : p.room = .none

theorem Pending.none_clear : Pending.none.Clear := ⟨rfl, rfl, rfl⟩

namespace World

/-- A world between calls: the state of the run says whether a transition runs, and a live run is in a room
and has nothing pending but custom events. -/
structure Settled (w : World τ) : Prop where
  transition : w.transition.Sound
  state : w.status.state = .transitioning ↔ w.transition.isRunning = true
  room : w.status.state.isLive = true → w.room.isSome = true
  pending : w.status.state.isLive = true → w.pending.Clear

variable {w w' : World τ} {delta : τ}

theorem stop_settled [Timed τ] (w : World τ) : w.stop.Settled :=
  ⟨Transition.Sound.idle, iff_of_false nofun nofun, nofun, nofun⟩

/-! ### ticks that come to their end -/

omit [Scalar τ] in
/-- What only asks goes on only to ask when instances are removed and spawned. -/
theorem OnlyAsks.commit (asks : w.OnlyAsks w') : w.OnlyAsks w'.commit := by
  obtain ⟨lastId, instances, same⟩ := commit_only w'
  rw [same]
  exact ⟨asks.transition, asks.room, asks.status, asks.asked⟩

/-- The end of a tick leaves the game settled, if it comes to its end. -/
theorem Settled.closes (settled : w.Settled) (coherent : w.Coherent) (declared : w.Declared)
    (live : w.status.state.isLive = true) (finished : (w.events delta).ending = .finished) :
    w.OnlyAsks (w.events delta).world.commit ∧ (w.events delta).world.commit.Closes (w.tick delta) := by
  have unasked := (settled.pending live).room
  have asks := events_ask unasked finished
  refine ⟨asks.commit, ?_⟩
  rw [tick_closes finished]
  apply closeTick_closes
  · exact Moment.steps_declared coherent declared (events_pass finished)
  · rw [asks.transition]
    exact settled.transition.bound
  · intro running
    rw [asks.transition] at running
    rw [events_running running]
    exact unasked

/-- However a tick ends, its world is settled, unless the tick fails. -/
theorem Closes.settled [Timed τ] {c : World τ} {p : Played τ} (closes : c.Closes p)
    (sound : c.transition.Sound) (state : c.status.state = .transitioning ↔ c.transition.isRunning = true)
    (room : c.room.isSome = true) (destroys : c.pending.destroys = []) (spawns : c.pending.spawns = [])
    (free : c.transition.isRunning = true → c.pending.room = none)
    (unfailed : ∀ cause, p.ending ≠ .failed cause) : p.world.Settled := by
  cases closes with
  | onward running left =>
    exact ⟨sound.onward running left, state, fun _ => room, fun _ => ⟨destroys, spawns, free running⟩⟩
  | arrives _ _ _ _ _ =>
    exact ⟨Transition.Sound.idle, iff_of_false nofun nofun, fun _ => rfl, fun _ => Pending.none_clear⟩
  | rests _ unasked => exact ⟨sound, state, fun _ => room, fun _ => ⟨destroys, spawns, unasked⟩⟩
  | changes _ _ _ _ _ => exact ⟨sound, state, fun _ => rfl, fun _ => Pending.none_clear⟩
  | departs _ _ kind =>
    exact ⟨.runs kind Timed.lasts, iff_of_true rfl (Transition.isRunning_iff.mpr kind), fun _ => room,
      fun _ => ⟨destroys, spawns, rfl⟩⟩
  | stranded _ _ _ _ _ _ | barred _ _ _ _ _ _ => exact absurd rfl (unfailed _)

/-- Events that neither come to their end nor fail have ended the game, and no transition ran. -/
theorem tick_halts (early : (w.events delta).ending ≠ .finished)
    (unfailed : ∀ cause, (w.tick delta).ending ≠ .failed cause) :
    w.transition.isRunning = false ∧ (w.tick delta).ending = .halted := by
  constructor
  · by_contra running
    rw [events_running (by simpa using running)] at early
    exact early rfl
  · rw [tick_early early] at unfailed ⊢
    cases ending : (w.events delta).ending with
    | finished => exact absurd ending early
    | halted => rfl
    | failed cause => exact absurd ending (unfailed cause)

theorem Settled.tick [Timed τ] (settled : w.Settled) (coherent : w.Coherent) (declared : w.Declared)
    (live : w.status.state.isLive = true) (unfailed : ∀ cause, (w.tick delta).ending ≠ .failed cause) :
    (w.tick delta).world.Settled := by
  have unasked := (settled.pending live).room
  by_cases finished : (w.events delta).ending = .finished
  · obtain ⟨asks, closes⟩ := settled.closes coherent declared live finished
    have cleared := commit_pending (w.events delta).world
    refine closes.settled ?_ ?_ ?_ (congrArg Pending.destroys cleared) (congrArg Pending.spawns cleared) ?_
      unfailed
    · exact asks.transition ▸ settled.transition
    · rw [asks.status, asks.transition]
      exact settled.state
    · exact asks.room ▸ settled.room live
    · intro running
      rw [asks.transition] at running
      rw [cleared, events_running running]
      exact unasked
  · -- the game has ended, so the run is not live any more
    obtain ⟨still, halted⟩ := tick_halts finished unfailed
    have stopped := tick_halted halted
    have same := tick_halted_transition still unasked halted
    have idle : ¬ (w.tick delta).world.transition.isRunning = true := by rw [same, still]; nofun
    refine ⟨same ▸ settled.transition, iff_of_false ?_ idle, ?_, ?_⟩ <;> rw [stopped] <;> nofun

/-! ### ticks while a transition runs -/

/-- The world after a tick in which nothing but the time of the transition has passed. -/
def frozen (w : World τ) (delta : τ) : World τ :=
  { w with
    clock := w.clock.advance delta
    journal := []
    toasts := w.toasts.advance (w.clock.advance delta).delta
    keys := w.keys.forgetEdges
    transition := { w.transition with remaining := (w.opened delta).transitionLeft } }

theorem Settled.live (settled : w.Settled) (running : w.transition.isRunning = true) :
    w.status.state.isLive = true := by
  rw [settled.state.mpr running]
  rfl

theorem Settled.state_still (settled : w.Settled) (live : w.status.state.isLive = true)
    (still : w.transition.isRunning = false) : w.status.state = .running := by
  cases state : w.status.state with
  | running => rfl
  | transitioning => exact absurd (still.symm.trans (settled.state.mp state)) nofun
  | idle | stopped =>
    rw [state] at live
    cases live

/-- While a transition runs, nothing is pending, so no instance is removed or spawned. -/
theorem Settled.commit_running (settled : w.Settled) (running : w.transition.isRunning = true) :
    (w.events delta).world.commit = w.opened delta := by
  have nothing := settled.pending (settled.live running)
  rw [events_running running]
  exact commit_nothing nothing.destroys nothing.spawns

theorem Settled.closes_running (settled : w.Settled) (coherent : w.Coherent) (declared : w.Declared)
    (running : w.transition.isRunning = true) : (w.opened delta).Closes (w.tick delta) := by
  have finished : (w.events delta).ending = .finished := by
    rw [events_running running]
    rfl
  have closes := (settled.closes coherent declared (settled.live running) finished).2
  rw [settled.commit_running running] at closes
  exact closes

theorem Settled.tick_frozen (settled : w.Settled) (coherent : w.Coherent) (declared : w.Declared)
    (running : w.transition.isRunning = true) (left : 0 < (w.opened delta).transitionLeft) :
    w.tick delta = .finished (w.frozen delta) := by
  have closes : (w.opened delta).Closes (w.tick delta) := settled.closes_running coherent declared running
  generalize w.tick delta = p at closes
  cases closes with
  | onward _ _ => rfl
  | arrives _ spent _ _ _ => exact absurd left spent
  | stranded _ spent _ _ _ _ => exact absurd left spent
  | rests still _ | changes still _ _ _ _ | barred still _ _ _ _ _ | departs still _ _ =>
    exact absurd (still.symm.trans running) nofun

/-- A tick in which the time of the transition is over ends in the room that the transition leads to. -/
theorem Settled.tick_over (settled : w.Settled) (coherent : w.Coherent) (declared : w.Declared)
    (running : w.transition.isRunning = true) (spent : ¬ 0 < (w.opened delta).transitionLeft) :
    (w.tick delta).world.transition = .idle := by
  have closes : (w.opened delta).Closes (w.tick delta) := settled.closes_running coherent declared running
  generalize w.tick delta = p at closes
  cases closes with
  | onward _ left => exact absurd left spent
  | arrives _ _ _ _ _ | stranded _ _ _ _ _ _ => rfl
  | rests still _ | changes still _ _ _ _ | barred still _ _ _ _ _ | departs still _ _ =>
    exact absurd (still.symm.trans running) nofun

end World

namespace Game

/-- Whatever a call makes of a settled world is settled. -/
private theorem called_settled [Timed τ] {w w' : World τ} (called : w.Called w') (coherent : w.Coherent)
    (declared : w.Declared) (settled : w.Settled) : w'.Settled := by
  cases called with
  | aside _ _ => exact ⟨settled.transition, settled.state, settled.room, settled.pending⟩
  | stopped | refused | barred _ _ _ | failed _ _ => exact World.stop_settled _
  | reset => exact ⟨Transition.Sound.idle, iff_of_false nofun nofun, nofun, nofun⟩
  | @entered project program room p _ entering finished =>
    -- entering touches neither the transition nor what is pending, and both are new
    subst entering
    obtain ⟨definition, known⟩ := World.enterRoom_known finished
    rcases World.enterRoom_cases _ known with ⟨is, _, same⟩ | ⟨_, _, _, same⟩
    · rw [same]
      exact ⟨Transition.Sound.idle, iff_of_false nofun nofun, fun _ => rfl, fun _ => Pending.none_clear⟩
    · rw [same] at finished
      cases finished
  | ticked _ _ live unfailed => exact settled.tick coherent declared live unfailed

/-- Whatever the host calls, the state of the run says whether a transition runs, and a live run has
nothing pending but custom events. -/
theorem after_settled [Timed τ] (settings : Settings) (calls : List (HostCall τ)) :
    ((new settings : Game τ).after calls).world.Settled := by
  -- that a tick goes in one of the seven ways rests on coherence and on declared rooms
  let Q (w : World τ) : Prop := (w.Coherent ∧ w.Declared) ∧ w.Settled
  have all : Q ((new settings : Game τ).after calls).world := by
    apply after_invariant (P := fun g => Q g.world)
    · rintro g c ⟨declared, settled⟩
      exact ⟨kept_declared.call g c declared, called_settled (g.call_called c) declared.1 declared.2 settled⟩
    · exact ⟨kept_declared.initial .., ⟨Transition.Sound.idle, iff_of_false nofun nofun, nofun, nofun⟩⟩
  exact all.2

private theorem tick_running [Timed τ] {g : Game τ} {delta : τ} (settled : g.world.Settled)
    (coherent : g.world.Coherent) (declared : g.world.Declared) (plays : g.Plays delta)
    (running : g.world.transition.isRunning = true) :
    ((g.tick delta).1.world.transition.isRunning = true ↔ 0 < (g.world.opened delta).transitionLeft) ∧
      ((g.tick delta).1.world.transition.isRunning = true →
        g.tick delta = (⟨g.world.frozen delta, g.faults⟩, none)) := by
  by_cases left : 0 < (g.world.opened delta).transitionLeft
  · have same : g.tick delta = (⟨g.world.frozen delta, g.faults⟩, none) := by
      rw [plays.tick, settled.tick_frozen coherent declared running left]
      rfl
    rw [same]
    exact ⟨iff_of_true running left, fun _ => rfl⟩
  · -- the transition is over, also when its room cannot be entered and the run is stopped
    have idle : (g.tick delta).1.world.transition = .idle := by
      have spent := settled.tick_over coherent declared running left
      rw [plays.tick, settle]
      split
      · rfl
      · exact spent
    rw [idle]
    constructor
    · exact iff_of_false Bool.false_ne_true left
    · intro runs
      exact absurd runs Bool.false_ne_true

/-- A transition freezes the game. In whatever state a host brings about, the state of the run is
`transitioning` if and only if there is a transition, if and only if it has a room to go to, if and only if
it has time left. A tick that begins then walks nothing, arranges nothing and notes nothing. Unless it ends
the transition, it changes only the clock, the toasts, the time left and the key edges. -/
theorem transition_freezes_game (settings : Settings) (calls : List (HostCall Float)) :
    let g : Game Float := (new settings).after calls
    let t := g.world.transition
    ((g.state = .transitioning ↔ t.kind ≠ .none) ∧ (t.kind ≠ .none ↔ t.room.isSome = true) ∧
      (t.kind ≠ .none ↔ 0 < t.remaining)) ∧
    ∀ delta : Float, Scalar.isFinite delta = true → ¬ delta < 0 → t.kind ≠ .none →
      (∀ m, Moment.Steps (.begin g.world delta) m → m.walking = none ∧ m.agenda = []) ∧
      (g.tick delta).1.world.happenings = [] ∧
      ((g.tick delta).1.world.transition.kind ≠ .none ↔ 0 < (g.world.opened delta).transitionLeft) ∧
      ((g.tick delta).1.world.transition.kind ≠ .none →
        g.tick delta = (⟨g.world.frozen delta, g.faults⟩, none)) := by
  intro g t
  have settled : g.world.Settled := after_settled settings calls
  simp only [← Transition.isRunning_iff]
  refine ⟨⟨settled.state, settled.transition.room, settled.transition.remaining⟩,
    fun delta finite forward running => ?_⟩
  have plays : g.Plays delta := ⟨finite, forward, settled.live running⟩
  refine ⟨fun m inside => ?_, ?_, ?_⟩
  · -- a tick that begins with a transition only passes the time of it
    have silent := Moment.steps_silent running inside
    exact ⟨silent.idle, silent.agenda⟩
  · obtain ⟨last, inside, world, _⟩ := Moment.tick_passes g.world delta
    have silent := Moment.steps_silent running inside
    rw [plays.leaves.1, ← world, World.happenings, silent.journal]
    rfl
  · exact tick_running settled (after_coherent settings calls) (after_declared settings calls) plays running

/-- A game of a cat that leaves the hall for the attic in its first step. -/
def leaving (transition : TransitionKind) (attic : List Placement) : Project where
  version := 1
  declarations := []
  objects := [⟨"cat", "Cat", none, some 1, some 1, false, [],
    [⟨.step, .act (.goToRoom "attic" transition) .done⟩]⟩]
  rooms := [⟨"hall", "Hall", 10, 10, [⟨"mat", "cat", 0, 0, none⟩]⟩, ⟨"attic", "Attic", 10, 10, attic⟩]
  sprites := []
  sounds := []

/-- The cat leaves on the first tick, and 100 of 220 milliseconds pass on the second. -/
theorem transition_freezes_game_leaving :
    let g : Game Float := (new .default).after [.start (leaving .fade []) "hall", .tick 16]
    Scalar.isFinite (100 : Float) = true ∧ ¬ (100 : Float) < 0 ∧ g.world.transition.kind ≠ .none ∧
      g.world.instances ≠ [] ∧ g.tick 100 = (⟨g.world.frozen 100, g.faults⟩, none) := by
  have finite : Scalar.isFinite (100 : Float) = true := by decide +kernel
  have forward : ¬ (100 : Float) < 0 := by decide +kernel
  have running : ((new .default : Game Float).after
      [.start (leaving .fade []) "hall", .tick 16]).world.transition.kind ≠ .none := by decide +kernel
  have present : ((new .default : Game Float).after
      [.start (leaving .fade []) "hall", .tick 16]).world.instances ≠ [] := by decide +kernel
  have onward : (((new .default : Game Float).after
      [.start (leaving .fade []) "hall", .tick 16]).tick 100).1.world.transition.kind ≠ .none := by
    decide +kernel
  obtain ⟨_, frozen⟩ :=
    transition_freezes_game .default [.start (leaving .fade []) "hall", .tick 16]
  exact ⟨finite, forward, running, present, (frozen 100 finite forward running).2.2.2 onward⟩

end Game

end Gameplay
