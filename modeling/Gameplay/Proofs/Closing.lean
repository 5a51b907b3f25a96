import Gameplay.Proofs.Declarations
import Gameplay.Proofs.RoomEntry
import Gameplay.Proofs.Transit

/-!
# The end of a tick

A tick first plays its events, unless a transition runs, and then closes: pending effects are carried out,
and the transition or the room change has its turn.

## Main results

`tick_eq`: a tick is its events and its end.
`closeTick_closes`: the end of a tick goes in one of seven ways.
-/

namespace Gameplay

namespace World

variable {τ : Type} [Scalar τ] {w : World τ}

/-- The world in which a tick begins: its time has passed, and nothing has happened yet. -/
def opened (w : World τ) (delta : τ) : World τ :=
  { w with clock := w.clock.advance delta, journal := [] }

/-- The part of a tick before its end: the phases of events, unless a transition runs. -/
def events (w : World τ) (delta : τ) : Played τ :=
  if w.transition.isRunning then .finished (w.opened delta) else (w.opened delta).eventPhases

theorem events_running {delta : τ} (running : w.transition.isRunning = true) :
    w.events delta = .finished (w.opened delta) := if_pos running

/-- The world with its toasts moved on and its key edges forgotten. -/
def tidied (w : World τ) : World τ :=
  { w with toasts := w.toasts.advance w.clock.delta, keys := w.keys.forgetEdges }

theorem tick_eq (w : World τ) (delta : τ) : w.tick delta = (w.events delta).andThen closeTick := rfl

/-- A tick that is cut short by its events does nothing at its end. -/
theorem tick_early {delta : τ} (early : (w.events delta).ending ≠ .finished) :
    w.tick delta = w.events delta := by
  rw [tick_eq, Played.andThen]
  split
  next finished => exact absurd finished early
  · rfl

theorem events_finish {delta : τ} (ended : (w.tick delta).ending = .finished) :
    (w.events delta).ending = .finished := by
  by_contra early
  exact early (tick_early early ▸ ended)

/-- A tick whose events come to their end goes on to its own end. -/
theorem tick_closes {delta : τ} (finished : (w.events delta).ending = .finished) :
    w.tick delta = (w.events delta).world.closeTick := by
  rw [tick_eq, Played.andThen, finished]

/-- The moments of a tick pass the end of its events. -/
theorem events_pass {delta : τ} (finished : (w.events delta).ending = .finished) :
    Moment.Steps (.begin w delta) ⟨(w.events delta).world, .commit, none, [], [], none⟩ := by
  by_cases running : w.transition.isRunning = true
  · -- such a tick begins at the commit
    rw [events_running running, Moment.begin, if_pos running]
    exact .refl
  · have played : w.events delta = (w.opened delta).eventPhases := if_neg running
    rw [played] at finished ⊢
    rw [Moment.begin, if_neg running]
    exact (Moment.events_reach _).goes finished

/-- What a tick leaves of the time that a transition still takes. -/
def transitionLeft (w : World τ) : τ := w.transition.remaining - Scalar.greater w.clock.delta 0

/-- The ways in which a tick can end, from the world in which instances have been removed and spawned. -/
inductive Closes (w : World τ) : Played τ → Prop
  /-- The transition goes on. -/
  | onward : w.transition.isRunning = true → 0 < w.transitionLeft →
      Closes w (.finished
        { w with transition := { w.transition with remaining := w.transitionLeft } }.tidied)
  /-- The transition is over, and its room is entered. -/
  | arrives {id : String} {room : RoomDefinition} {is : List (Instance τ)} :
      w.transition.isRunning = true → ¬ 0 < w.transitionLeft → w.transition.room = some id →
      w.project.room? id = some room → Populates w.program w.lastId room.instances is →
      Closes w (.finished
        { w.entered room is with
          transition := .idle, status := { w.status with state := .running } }.tidied)
  /-- The transition is over, and its room cannot be entered. -/
  | stranded {id : String} {room : RoomDefinition} {placement : Placement} :
      w.transition.isRunning = true → ¬ 0 < w.transitionLeft → w.transition.room = some id →
      w.project.room? id = some room → placement ∈ room.instances →
      w.program.objectIndex? placement.objectId = none →
      Closes w ⟨{ w.leaveRoom with transition := .idle }, .failed (.object placement.objectId)⟩
  /-- No room is asked for. -/
  | rests : w.transition.isRunning = false → w.pending.room = none → Closes w (.finished w.tidied)
  /-- A room is asked for without a transition, and is entered. -/
  | changes {request : RoomRequest} {room : RoomDefinition} {is : List (Instance τ)} :
      w.transition.isRunning = false → w.pending.room = some request → request.transition = .none →
      w.project.room? request.room = some room → Populates w.program w.lastId room.instances is →
      Closes w (.finished (w.entered room is).tidied)
  /-- A room is asked for without a transition, and cannot be entered. -/
  | barred {request : RoomRequest} {room : RoomDefinition} {placement : Placement} :
      w.transition.isRunning = false → w.pending.room = some request → request.transition = .none →
      w.project.room? request.room = some room → placement ∈ room.instances →
      w.program.objectIndex? placement.objectId = none →
      Closes w ⟨w.leaveRoom, .failed (.object placement.objectId)⟩
  /-- A room is asked for with a transition, which starts. -/
  | departs {request : RoomRequest} :
      w.transition.isRunning = false → w.pending.room = some request → request.transition ≠ .none →
      Closes w (.finished
        { w with
          pending := { w.pending with room := none }
          transition := ⟨request.transition, Transition.duration, some request.room⟩
          status := { w.status with state := .transitioning } }.tidied)

theorem stepTransition_still (still : w.transition.isRunning = false) :
    w.stepTransition = .finished w := by
  simp only [stepTransition, Transition.advance, still, Bool.false_eq_true, if_false]

/-- The turn of the transition asks for no room. -/
theorem stepTransition_unasked (unasked : w.pending.room = none) :
    w.stepTransition.world.pending.room = none := by
  unfold stepTransition
  generalize w.transition.advance w.clock.delta = moved
  obtain ⟨transition, arrived⟩ := moved
  cases arrived with
  | none => exact unasked
  | some id =>
    -- the old room is left with everything that is pending
    obtain ⟨room, lastId, instances, same⟩ :=
      enterRoom_only ({ w with transition := transition } : World τ).leaveRoom id
    have free : (({ w with transition := transition } : World τ).changeRoom id).world.pending.room = none := by
      rw [changeRoom, same]
      rfl
    dsimp only [Played.andThen]
    split
    · exact free
    · exact free

theorem followRequest_unasked (unasked : w.pending.room = none) : w.followRequest = .finished w := by
  simp only [followRequest, unasked]

/-- A transition whose time is spent leads into its room, or the room cannot be entered and the run fails. -/
private theorem closes_over (declared : w.Declared) {id : String}
    (running : w.transition.isRunning = true) (spent : ¬ 0 < w.transitionLeft)
    (goal : w.transition.room = some id) :
    Closes w ((w.stepTransition.andThen followRequest).andThen fun w => .finished w.tidied) := by
  -- the tick takes all the time that is left, so the transition arrives
  have advanced : w.transition.advance w.clock.delta = (.idle, some id) := by
    rw [Transition.advance, if_pos running]
    dsimp only
    rw [← goal]
    exact if_neg spent
  obtain ⟨room, known⟩ := Option.isSome_iff_exists.mp (declared.destination id goal)
  have changed := changeRoom_cases { w with transition := Transition.idle } known
  rcases changed with ⟨is, populates, changed⟩ | ⟨placement, listed, unknown, changed⟩
  · simp only [stepTransition, advanced, changed]
    exact .arrives running spent goal known populates
  · simp only [stepTransition, advanced, changed]
    exact .stranded running spent goal known listed unknown

/-- Without a transition the tick ends with the room that was asked for, if one was. -/
private theorem closes_still (declared : w.Declared) (still : w.transition.isRunning = false) :
    Closes w ((w.stepTransition.andThen followRequest).andThen fun w => .finished w.tidied) := by
  rw [stepTransition_still still]
  simp only [Played.finished, Played.andThen, followRequest]
  cases asked : w.pending.room with
  | none => exact .rests still asked
  | some request =>
    by_cases immediate : request.transition = .none
    · obtain ⟨room, known⟩ := Option.isSome_iff_exists.mp (declared.request request asked)
      have changed := changeRoom_cases { w with pending := { w.pending with room := none } } known
      simp only [immediate, if_true]
      rcases changed with ⟨is, populates, changed⟩ | ⟨placement, listed, unknown, changed⟩
      · simp only [changed, Played.finished]
        exact .changes still asked immediate known populates
      · simp only [changed]
        exact .barred still asked immediate known listed unknown
    · -- no transition runs, so the one that is asked for is not turned down
      have started : w.transition.start? request.transition request.room =
          some ⟨request.transition, Transition.duration, some request.room⟩ := by
        simp [Transition.start?, immediate, still]
      simp only [immediate, if_false, started]
      exact .departs still asked immediate

/-- The end of a tick, if nothing is asked for while a transition runs. -/
theorem closeTick_closes (declared : w.Declared) (bound : w.transition.Bound)
    (free : w.transition.isRunning = true → w.pending.room = none) : w.commit.Closes w.closeTick := by
  obtain ⟨lastId, instances, committed⟩ := commit_only w
  have declared' := commit_declared declared
  have transition : w.commit.transition = w.transition := commit_transition w
  have request : w.commit.pending.room = w.pending.room := by rw [committed]
  rw [← transition] at bound free
  rw [← request] at free
  change w.commit.Closes
    ((w.commit.stepTransition.andThen followRequest).andThen fun w => .finished w.tidied)
  -- the ways differ in the world after the commit only
  generalize w.commit = c at declared' bound free
  by_cases running : c.transition.isRunning = true
  · by_cases left : 0 < c.transitionLeft
    · have advanced : c.transition.advance c.clock.delta =
          ({ c.transition with remaining := c.transitionLeft }, none) := by
        rw [Transition.advance, if_pos running]
        exact if_pos left
      simp only [stepTransition, advanced, Played.finished, Played.andThen, followRequest, free running]
      exact .onward running left
    · obtain ⟨id, goal⟩ := Option.isSome_iff_exists.mp (bound running)
      exact closes_over declared' running left goal
  · exact closes_still declared' (by simpa using running)

end World

end Gameplay
