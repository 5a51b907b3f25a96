import Gameplay.Proofs.Instances

/-!
# Ticks of a transition

While a transition runs, ticks play no events. It ends with a change of rooms, which leaves no instance
behind, or with the run.

## Main results

`tick_transit`: a tick that begins while a transition runs notes nothing, and after it the transition
runs on, or no instance is left that was there before, or the tick has failed.
`after_bound`: in whatever state a host brings about, a transition that runs has a room to go to.
-/

namespace Gameplay

namespace Transition

variable {τ : Type} [Scalar τ]

/-- A transition that runs has a room to go to. -/
def Bound (t : Transition τ) : Prop := t.isRunning = true → t.room.isSome = true

theorem idle_bound : (idle : Transition τ).Bound := nofun

/-- Time takes something off a transition that runs, or ends it. -/
theorem advance_cases (t : Transition τ) (elapsed : τ) :
    (t.isRunning = true ∧ ∃ remaining, t.advance elapsed = ({ t with remaining := remaining }, none)) ∨
    (t.isRunning = true ∧ t.advance elapsed = (idle, t.room)) ∨
    (t.isRunning = false ∧ t.advance elapsed = (t, none)) := by
  unfold advance
  by_cases running : t.isRunning = true
  · simp only [running, if_true, true_and]
    split
    · exact .inl ⟨_, rfl⟩
    · exact .inr (.inl rfl)
  · rw [if_neg running]
    exact .inr (.inr ⟨by simpa using running, rfl⟩)

end Transition

namespace World

variable {τ : Type}

/-! ### what leaves the transition alone -/

@[simp] theorem spawn_transition (w : World τ) (object : Nat) (position : Vec Float32) (origin : Origin) :
    (w.spawn object position origin).transition = w.transition := by
  unfold spawn
  split <;> rfl

@[simp] theorem spawnPlaced_transition (w : World τ) (placed : List (Placement × Nat)) :
    (w.spawnPlaced placed).transition = w.transition := by
  unfold spawnPlaced
  induction placed generalizing w with
  | nil => rfl
  | cons first rest ih => exact (ih _).trans (spawn_transition w ..)

@[simp] theorem enterRoom_transition (w : World τ) (room : String) :
    (w.enterRoom room).world.transition = w.transition := by
  unfold enterRoom
  split
  · rfl
  · split
    · rfl
    · exact spawnPlaced_transition _ _

@[simp] theorem changeRoom_transition (w : World τ) (room : String) :
    (w.changeRoom room).world.transition = w.transition := enterRoom_transition _ room

@[simp] theorem commit_transition (w : World τ) : w.commit.transition = w.transition := by
  unfold commit
  dsimp only
  induction w.pending.spawns with
  | nil => rfl
  | cons s spawns ih => exact (spawn_transition ..).trans ih

/-- A change of room leaves none of the instances from before. -/
private theorem changeRoom_dead (w : World τ) (room : String) {id : Nat} (given : id ≤ w.lastId) :
    (w.changeRoom room).world.Dead id := by
  rintro i member rfl
  exact absurd given (Nat.not_le_of_lt ((changeRoom_fresh w room).2 i member))

variable [Scalar τ] {w : World τ}

/-! ### the end of a tick -/

/-- A transition that is stepped goes on, or else every instance from before is gone. -/
theorem stepTransition_transit (bound : w.transition.Bound) :
    w.stepTransition.world.transition.Bound ∧ (w.transition.isRunning = true →
      w.stepTransition.world.transition.isRunning = true ∨
        ∀ id ≤ w.lastId, w.stepTransition.world.Dead id) := by
  unfold stepTransition
  rcases w.transition.advance_cases w.clock.delta with ⟨running, remaining, same⟩ | ⟨running, same⟩ |
    ⟨still, same⟩
  · rw [same]
    exact ⟨bound, fun _ => .inl running⟩
  · -- the transition is at its end
    obtain ⟨room, goal⟩ := Option.isSome_iff_exists.mp (bound running)
    rw [same, goal]
    dsimp only [Played.andThen]
    have dead (id : Nat) (given : id ≤ w.lastId) :=
      changeRoom_dead { w with transition := .idle } room given
    have idle := changeRoom_transition { w with transition := .idle } room
    split
    · exact ⟨idle.symm ▸ Transition.idle_bound, fun _ => .inr dead⟩
    · exact ⟨idle.symm ▸ Transition.idle_bound, fun _ => .inr dead⟩
  · rw [same]
    exact ⟨bound, fun running => by rw [still] at running; cases running⟩

/-- A running transition still runs when the request has been followed, or every instance from before is gone. -/
theorem followRequest_transit (bound : w.transition.Bound) :
    w.followRequest.world.transition.Bound ∧ (w.transition.isRunning = true →
      w.followRequest.world.transition.isRunning = true ∨
        ∀ id ≤ w.lastId, w.followRequest.world.Dead id) := by
  unfold followRequest
  split
  · exact ⟨bound, .inl⟩
  next request _ =>
    dsimp only
    split
    · -- a room change without a transition takes place even while another transition runs
      refine ⟨?_, fun _ => .inr fun id given => changeRoom_dead _ request.room given⟩
      rw [changeRoom_transition]
      exact bound
    · split
      · exact ⟨bound, .inl⟩
      next started begun =>
        unfold Transition.start? at begun
        split at begun
        · cases begun
        next startable =>
          cases begun
          have runs : request.transition ≠ .none := fun same => startable (.inl same)
          exact ⟨fun _ => rfl, fun _ => .inl (by simpa [Transition.isRunning, Played.finished] using runs)⟩

end World

namespace Moment

variable {τ : Type} [Scalar τ] {m next : Moment τ} {w : World τ}

private theorem strode_transition {w w' : World τ} {v : Invocation} {frames : List Frame}
    {stride : Stride τ} (strode : World.Strode v w frames w' stride) :
    w'.transition = w.transition := by
  obtain ⟨w₀, status, entries, change, rfl, _⟩ := strode.acted
  exact change.transition

theorem Moved.bound (moved : Moved m next) (bound : m.world.transition.Bound) :
    next.world.transition.Bound := by
  cases moved with
  | walk strode | halt strode | fail strode | park strode =>
    have same := strode_transition strode
    exact same ▸ bound
  | step taken =>
    rcases World.takeDue_cases taken with ⟨_, rfl, _⟩ | ⟨_, _, _, rfl⟩ <;> exact bound
  | handle _ _ taken => subst taken; exact bound
  | commit => rw [World.commit_transition]; exact bound
  | transition _ | transitionFailed _ => exact (World.stepTransition_transit bound).1
  | request _ | requestFailed _ => exact (World.followRequest_transit bound).1
  | finish _ | pass _ | drop _ | start _ _ | resume _ _ | create | created | stepped | collided
  | handled _ | close => exact bound

/-- A moment after the events of a tick in which nothing has been noted. -/
structure Silent (m : Moment τ) : Prop where
  phase : m.phase = .commit ∨ m.phase = .transition ∨ m.phase = .request ∨ m.phase = .close
  idle : m.walking = none
  agenda : m.agenda = []
  journal : m.world.journal = []

/-- Nothing is walked and nothing is arranged, so only the last phases remain. -/
theorem Moved.silent (moved : Moved m next) (silent : m.Silent) : next.Silent := by
  obtain ⟨phase, idle, agenda, journal⟩ := silent
  cases moved with
  | walk _ | finish _ | park _ | halt _ | fail _ => cases idle
  | pass _ | drop _ | start _ _ | resume _ _ => cases agenda
  | create | created | step _ | stepped | collided | handle _ _ _ | handled _ => simp at phase
  | @commit w => exact ⟨.inr (.inl rfl), rfl, rfl, (World.commit_sameRun w).journal.trans journal⟩
  | @transition w =>
    exact ⟨.inr (.inr (.inl rfl)), rfl, rfl, (World.stepTransition_sameRun w).journal.trans journal⟩
  | @transitionFailed w =>
    exact ⟨phase, rfl, rfl, (World.stepTransition_sameRun w).journal.trans journal⟩
  | @request w =>
    exact ⟨.inr (.inr (.inr rfl)), rfl, rfl, (World.followRequest_sameRun w).journal.trans journal⟩
  | @requestFailed w =>
    exact ⟨phase, rfl, rfl, (World.followRequest_sameRun w).journal.trans journal⟩
  | close => exact ⟨phase, rfl, rfl, journal⟩

/-- At no moment of a tick that begins while a transition runs does anything happen. -/
theorem steps_silent {delta : τ} (running : w.transition.isRunning = true)
    (inside : Steps (begin w delta) m) : m.Silent := by
  refine inside.invariant ?_ Moved.silent
  rw [begin, if_pos running]
  exact ⟨.inl rfl, rfl, rfl, rfl⟩

/-- A moment of a tick that began while a transition ran. -/
private structure InTransit (id : Nat) (m : Moment τ) : Prop where
  coherent : m.Coherent
  given : id ≤ m.world.lastId
  silent : m.Silent
  bound : m.world.transition.Bound
  goes : m.world.transition.isRunning = true ∨ m.world.Dead id

private theorem InTransit.moved {id : Nat} (transit : InTransit id m) (moved : Moved m next) :
    InTransit id next := by
  obtain ⟨coherent, given, silent, bound, goes⟩ := transit
  refine ⟨coherent.moved moved, Nat.le_trans given (moved.lastId coherent), moved.silent silent,
    moved.bound bound, ?_⟩
  have dead := moved.dead coherent given
  -- what is proved of all instances at once is used for the one in question
  have goes' (change : m.world.transition.isRunning = true → next.world.transition.isRunning = true ∨
      ∀ id ≤ m.world.lastId, next.world.Dead id) :
      next.world.transition.isRunning = true ∨ next.world.Dead id := by
    rcases goes with running | gone
    · exact (change running).imp_right fun all => all id given
    · exact .inr (dead gone)
  cases moved with
  | walk _ | finish _ | park _ | halt _ | fail _ => cases silent.idle
  | pass _ | drop _ | start _ _ | resume _ _ => cases silent.agenda
  | create | created | step _ | stepped | collided | handle _ _ _ | handled _ =>
    have phase := silent.phase
    simp at phase
  | commit =>
    rw [World.commit_transition]
    exact goes.imp (fun running => running) dead
  | transition _ | transitionFailed _ => exact goes' (World.stepTransition_transit bound).2
  | request _ | requestFailed _ => exact goes' (World.followRequest_transit bound).2
  | close => exact goes.imp_right dead

/-- A tick that begins while a transition runs notes nothing, and after it the transition runs on or no
instance is left that was there before. -/
theorem tick_transit {id : Nat} (delta : τ) (coherent : w.Coherent) (given : id ≤ w.lastId)
    (bound : w.transition.Bound) (running : w.transition.isRunning = true) :
    (w.tick delta).world.journal = [] ∧
      ((w.tick delta).world.transition.isRunning = true ∨ (w.tick delta).world.Dead id) := by
  obtain ⟨last, inside, world, _⟩ := tick_passes w delta
  have first : InTransit id (begin w delta) := by
    refine ⟨begin_coherent coherent delta, ?_, steps_silent running .refl, ?_, ?_⟩ <;>
      rw [begin_world]
    · exact given
    · exact bound
    · exact .inl running
  have transit := inside.invariant first fun moved transit => transit.moved moved
  rw [← world]
  exact ⟨transit.silent.journal, transit.goes⟩

end Moment

/-! ### in whatever state -/

namespace Game

variable {τ : Type} [Scalar τ]

theorem kept_bound : Kept fun w : World τ => w.transition.Bound where
  initial _ _ := Transition.idle_bound
  enter w project program room _ := by
    rw [World.enterRoom_transition]
    exact Transition.idle_bound
  run _ bound := bound
  tick w delta _ bound := by
    obtain ⟨last, inside, same, _⟩ := Moment.tick_passes w delta
    rw [← same]
    refine inside.invariant (P := fun m => m.world.transition.Bound) ?_ fun moved => moved.bound
    rw [Moment.begin_world]
    exact bound
  stop _ _ := Transition.idle_bound
  keys _ _ bound := bound
  sounds _ bound := bound

/-- Whatever the host calls, a transition that runs has a room to go to. -/
theorem after_bound (settings : Settings) (calls : List (HostCall τ)) :
    ((new settings : Game τ).after calls).world.transition.Bound :=
  after_world kept_bound settings calls

end Game

end Gameplay
