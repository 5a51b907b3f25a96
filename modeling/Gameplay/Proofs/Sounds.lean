import Gameplay.Proofs.Turns

/-!
# Sounds

Actions ask for sounds, which stay with the world until the host takes them.

## Main result

`tick_sounds`: after a tick the sounds to be taken are those that had not been taken before it and those that
its actions have asked for, in this order.
-/

namespace Gameplay

variable {τ : Type}

/-- The sound that an action asks for. -/
def Action.sound? : Action → Option String
  | .playSound soundId => some soundId
  | _ => none

/-- The sound that was asked for, if something that happened asked for one. -/
def Happening.sound? : Happening τ → Option String
  | .performed _ action => action.sound?
  | _ => none

/-- The sounds that the actions of the last tick have asked for, in order. -/
def World.soundRequests (w : World τ) : List String := w.happenings.filterMap Happening.sound?

namespace World

variable {w w' w'' : World τ} {v : Invocation}

/-- From one world to the other, what is noted in the journal asks for the sounds that are added. Both are kept
the latest first. -/
def Sounds (w w' : World τ) : Prop :=
  ∃ entries, w'.journal = entries ++ w.journal ∧ w'.sounds = entries.filterMap Happening.sound? ++ w.sounds

theorem Sounds.silent (journal : w'.journal = w.journal) (sounds : w'.sounds = w.sounds) : w.Sounds w' :=
  ⟨[], journal, sounds⟩

theorem Sounds.trans (first : w.Sounds w') (second : w'.Sounds w'') : w.Sounds w'' := by
  obtain ⟨early, journal, sounds⟩ := first
  obtain ⟨late, journal', sounds'⟩ := second
  refine ⟨late ++ early, ?_, ?_⟩
  · rw [journal', journal, List.append_assoc]
  · rw [sounds', sounds, List.filterMap_append, List.append_assoc]

theorem Sounds.note (w : World τ) {h : Happening τ} (silent : h.sound? = none) : w.Sounds (w.note h) :=
  ⟨[h], rfl, by simp [World.note, silent]⟩

private theorem given_sounds {α : Type} {looked : Except Dangling α} {go : α → World τ × Flow τ}
    (found : ∀ a, looked = .ok a → (go a).1.sounds = w.sounds) : (w.given looked go).1.sounds = w.sounds :=
  given_cases (P := fun r => r.1.sounds = w.sounds) (fun _ _ => rfl) found

private theorem assign_sounds {actor : Nat} {r : VariableRef} {value : Value}
    (assigned : w.assign actor r value = .ok w') : w'.sounds = w.sounds := by
  unfold assign at assigned
  split at assigned
  · cases assigned
  · split at assigned <;> cases assigned <;> rfl

private theorem askForRoom_sounds (w : World τ) (room : String) (transition : TransitionKind) :
    (w.askForRoom room transition).1.sounds = w.sounds := by
  unfold askForRoom
  split <;> rfl

variable [Scalar τ]

/-- An action that asks for a sound does not fail, so that a sound is added iff the action asks for it. -/
private theorem perform_sounds (w : World τ) (v : Invocation) (action : Action) :
    (w.perform v action).1.sounds = action.sound?.toList ++ w.sounds := by
  cases action with
  -- actions that look nothing up
  | playSound _ | clampToRoom | destroySelf | endGame _ | emitCustomEvent _ => rfl
  | move _ _ | setVelocity _ _ | rotate _ | teleport _ _ | changeScore _ | message _ _ | wait _ =>
    exact given_sounds fun _ _ => rfl
  | moveToward _ _ _ => exact given_sounds fun _ _ => given_sounds fun _ _ => rfl
  | destroyOther =>
    simp only [perform]
    split
    · dsimp only
      split <;> rfl
    · rfl
  | spawnObject _ _ _ _ =>
    simp only [perform]
    split
    · rfl
    · exact given_sounds fun _ _ => rfl
  -- actions that set a variable
  | changeVariable _ _ _ =>
    exact given_sounds fun _ _ => given_sounds fun _ _ => given_sounds fun _ assigned => assign_sounds assigned
  | randomizeVariable _ _ _ integer =>
    refine given_sounds fun low _ => given_sounds fun high _ => ?_
    dsimp only
    -- a draw changes the generator only
    generalize w.random.draw low high integer = drawing
    obtain ⟨drawn, random⟩ := drawing
    refine given_cases (P := fun r => r.1.sounds = w.sounds) (fun _ _ => rfl) fun w' assigned => ?_
    have same := assign_sounds assigned
    exact same
  | copyVariable _ _ => exact given_sounds fun _ _ => given_sounds fun _ assigned => assign_sounds assigned
  -- actions that ask for a room
  | goToRoom _ _ => exact askForRoom_sounds w _ _
  | restartRoom _ =>
    simp only [perform]
    split
    · rfl
    · exact askForRoom_sounds w _ _

private theorem act_sounds {action : Action} {flow : Flow τ} (acted : w.act v action = (w', flow)) :
    w.Sounds w' := by
  have sounds := perform_sounds w v action
  have journal := (perform_performs w v action).acted.journal
  unfold act at acted
  split at acted
  next cause performed =>
    cases acted
    rw [performed] at sounds journal
    -- an action that asks for a sound would not have failed
    cases action with
    | playSound _ => cases performed
    | _ => exact .silent journal sounds
  next performed =>
    cases acted
    rw [performed] at sounds journal
    refine ⟨[.performed v action], congrArg (_ :: ·) journal, sounds.trans ?_⟩
    cases asked : action.sound? <;> simp [Happening.sound?, asked]

theorem Strode.sounds {frames : List Frame} {stride : Stride τ} (strode : Strode v w frames w' stride) :
    w.Sounds w' := by
  cases strode with
  | done | leave _ | skip _ _ | dangle _ _ _ | enter _ _ _ _ => exact .silent rfl rfl
  | act _ _ acted | suspend _ _ acted | halt _ _ acted | fail _ _ acted => exact act_sounds acted

omit [Scalar τ] in
private theorem SameRun.silent (same : w.SameRun w') : w.Sounds w' := .silent same.journal same.sounds

end World

namespace Moment

variable [Scalar τ] {m next : Moment τ}

theorem Moved.sounds (moved : Moved m next) : m.world.Sounds next.world := by
  cases moved with
  | walk strode | halt strode | fail strode => exact strode.sounds
  -- that the walk waits is noted as well
  | park strode => exact strode.sounds.trans (.note _ rfl)
  | start _ _ | resume _ _ => exact .note _ rfl
  | step taken =>
    rcases World.takeDue_cases taken with ⟨_, rfl, _⟩ | ⟨_, _, _, rfl⟩ <;> exact .silent rfl rfl
  | handle _ _ taken =>
    subst taken
    exact .note _ rfl
  | commit => exact (World.commit_sameRun _).silent
  | transition _ | transitionFailed _ => exact (World.stepTransition_sameRun _).silent
  | request _ | requestFailed _ => exact (World.followRequest_sameRun _).silent
  | finish _ | pass _ | drop _ | create | created | stepped | collided | handled _ | close =>
    exact .silent rfl rfl

theorem Steps.sounds (steps : Steps m next) : m.world.Sounds next.world :=
  steps.invariant (P := fun next => m.world.Sounds next.world) (.silent rfl rfl) fun moved before =>
    before.trans moved.sounds

end Moment

/-- A tick adds the sounds that its actions ask for to those that have not been taken. -/
theorem World.tick_sounds [Scalar τ] (w : World τ) (delta : τ) :
    (w.tick delta).world.sounds.reverse = w.sounds.reverse ++ (w.tick delta).world.soundRequests := by
  obtain ⟨last, inside, world, _⟩ := Moment.tick_passes w delta
  obtain ⟨entries, journal, sounds⟩ := inside.sounds
  rw [Moment.begin_world] at journal sounds
  rw [← world, soundRequests, happenings, journal, sounds]
  simp

end Gameplay
