import Gameplay.Proofs.Closing
import Gameplay.Proofs.Turns

/-!
# Rooms that are asked for

The actions of a tick can ask for rooms. Of several requests the first is kept, until the end of the tick
carries it out; the room, the transition and the status stay as they are until then.

## Main results

`act_asks`: what an action leaves asked for.
`events_ask`: when the events of a tick have come to their end, the first request among its actions is
the one that is asked for.
-/

namespace Gameplay

variable {τ : Type}

/-! ### requests -/

/-- What an action asks for, in a room. -/
def Action.roomRequest? (room : Option CurrentRoom) : Action → Option RoomRequest
  | .goToRoom id transition => some ⟨id, transition⟩
  | .restartRoom transition => room.map fun r => ⟨r.id, transition⟩
  | _ => none

/-- What was asked for, in a room. -/
def Happening.roomRequest? (room : Option CurrentRoom) : Happening τ → Option RoomRequest
  | .performed _ action => action.roomRequest? room
  | _ => none

/-- The rooms that the actions of the last tick have asked for in a room, in order. -/
def World.requests (w : World τ) (room : Option CurrentRoom) : List RoomRequest :=
  w.happenings.filterMap (·.roomRequest? room)

namespace World

variable {w w' : World τ} {v : Invocation} {action : Action}

theorem requests_append {entries : List (Happening τ)} (journal : w'.journal = entries ++ w.journal)
    (room : Option CurrentRoom) :
    w'.requests room = w.requests room ++ entries.reverse.filterMap (·.roomRequest? room) := by
  simp only [requests, happenings, journal, List.reverse_append, List.filterMap_append]

theorem requests_note {h : Happening τ} {room : Option CurrentRoom} (nothing : h.roomRequest? room = none) :
    (w.note h).requests room = w.requests room := by
  have journal : (w.note h).journal = [h] ++ w.journal := rfl
  rw [requests_append journal]
  simp [nothing]

/-! ### actions -/

/-- What an action that does not fail leaves asked for: what was, or else what the action asks for. -/
private def Asks (action : Action) (w : World τ) (r : World τ × Flow τ) : Prop :=
  (∀ cause, r.2 ≠ .fail cause) → r.1.pending.room = w.pending.room.or (action.roomRequest? w.room)

private theorem Asks.failed {cause : Dangling} : Asks action w (w', .fail cause) :=
  fun unfailed => absurd rfl (unfailed cause)

private theorem Asks.quiet {r : World τ × Flow τ} (nothing : action.roomRequest? w.room = none)
    (same : r.1.pending.room = w.pending.room) : Asks action w r := by
  intro _
  rw [nothing, Option.or_none, same]

private theorem Asks.given {α : Type} {looked : Except Dangling α} {go : α → World τ × Flow τ}
    (found : ∀ a, looked = .ok a → Asks action w (go a)) : Asks action w (w.given looked go) :=
  given_cases (fun _ _ => .failed) found

private theorem destroy_request (w : World τ) (id : Nat) :
    (w.destroy id).pending.room = w.pending.room := by
  simp only [destroy, Pending.destroy]
  split <;> rfl

private theorem assign_request {actor : Nat} {r : VariableRef} {value : Value}
    (assigned : w.assign actor r value = .ok w') : w'.pending.room = w.pending.room := by
  unfold assign at assigned
  split at assigned
  · cases assigned
  · split at assigned <;> cases assigned <;> rfl

private theorem askForRoom_asks {room : String} {transition : TransitionKind}
    (asks : action.roomRequest? w.room = some ⟨room, transition⟩) :
    Asks action w (w.askForRoom room transition) := by
  unfold askForRoom
  split
  · exact .failed
  · intro _
    rw [asks]
    cases asked : w.pending.room with
    | none => simp [Pending.claimRoom?, asked]
    | some request => simp [Pending.claimRoom?, asked]

variable [Scalar τ]

private theorem perform_asks (w : World τ) (v : Invocation) (action : Action) :
    Asks action w (w.perform v action) := by
  cases action with
  | move _ _ | setVelocity _ _ | rotate _ | teleport _ _ | changeScore _ | message _ _ | wait _ =>
    exact .given fun _ _ => .quiet rfl rfl
  | moveToward _ _ _ => exact .given fun _ _ => .given fun _ _ => .quiet rfl rfl
  | clampToRoom | endGame _ | playSound _ | emitCustomEvent _ => exact .quiet rfl rfl
  | destroySelf => exact .quiet rfl (destroy_request w _)
  | destroyOther =>
    simp only [perform]
    split
    · apply Asks.quiet rfl
      dsimp only
      split
      · exact destroy_request w _
      · rfl
    · exact .quiet rfl rfl
  | spawnObject _ _ _ _ =>
    simp only [perform]
    split
    · exact .failed
    · exact .given fun _ _ => .quiet rfl rfl
  | changeVariable _ _ _ =>
    exact .given fun _ _ => .given fun _ _ => .given fun _ assigned => .quiet rfl (assign_request assigned)
  | randomizeVariable _ _ _ integer =>
    refine .given fun low _ => .given fun high _ => ?_
    dsimp only
    -- a draw moves the generator on, whichever number it gives
    generalize w.random.draw low high integer = drawing
    obtain ⟨drawn, random⟩ := drawing
    refine given_cases (fun _ _ => .failed) fun w' assigned => ?_
    have same := assign_request assigned
    exact .quiet rfl same
  | copyVariable _ _ => exact .given fun _ _ => .given fun _ assigned => .quiet rfl (assign_request assigned)
  | goToRoom _ _ => exact askForRoom_asks rfl
  | restartRoom transition =>
    simp only [perform]
    split
    next nowhere =>
      apply Asks.quiet _ rfl
      simp [Action.roomRequest?, nowhere]
    next room here =>
      apply askForRoom_asks
      simp [Action.roomRequest?, here]

/-- An action that does not fail leaves the room that was asked for first, or else asks for its own. -/
theorem act_asks {flow : Flow τ} (acted : w.act v action = (w', flow))
    (unfailed : ∀ cause, flow ≠ .fail cause) :
    w'.pending.room = w.pending.room.or (action.roomRequest? w.room) := by
  have asks := perform_asks w v action
  unfold act at acted
  split at acted
  next cause _ =>
    cases acted
    exact absurd rfl (unfailed cause)
  next performed =>
    cases acted
    rw [performed] at asks
    exact asks unfailed

/-! ### walks -/

/-- The first request of the tick is the one that is asked for. -/
def FirstAsked (w : World τ) : Prop := w.pending.room = (w.requests w.room).head?

omit [Scalar τ] in
private theorem FirstAsked.performed (first : w.FirstAsked) (room : w'.room = w.room)
    (journal : w'.journal = .performed v action :: w.journal)
    (asks : w'.pending.room = w.pending.room.or (action.roomRequest? w.room)) : w'.FirstAsked := by
  have noted : w'.requests w.room = w.requests w.room ++ (action.roomRequest? w.room).toList := by
    have appended : w'.journal = [.performed v action] ++ w.journal := journal
    rw [requests_append appended]
    cases nothing : action.roomRequest? w.room with
    | none => simp [Happening.roomRequest?, nothing]
    | some request => simp [Happening.roomRequest?, nothing]
  rw [FirstAsked, room, noted, asks, first, List.head?_append]
  cases action.roomRequest? w.room <;> rfl

/-- A stride that does not fail keeps the account of the first request. -/
theorem Strode.asks {frames : List Frame} {s : Stride τ} (strode : Strode v w frames w' s)
    (unfailed : ∀ cause, s ≠ .stop (.failed cause)) (first : w.FirstAsked) : w'.FirstAsked := by
  cases strode with
  | done | leave _ | skip _ _ | enter _ _ _ _ => exact first
  | act _ _ acted =>
    have asks := act_asks acted nofun
    obtain ⟨w₀, change, _, rfl⟩ := act_next acted
    exact first.performed change.room (congrArg _ change.journal) asks
  | suspend _ _ acted =>
    have asks := act_asks acted nofun
    obtain ⟨_, rfl⟩ := act_suspend acted
    exact first.performed rfl rfl asks
  | halt _ _ acted =>
    have asks := act_asks acted nofun
    obtain ⟨message, _, rfl⟩ := act_halt acted
    exact first.performed rfl rfl asks
  | fail _ _ _ | dangle _ _ _ => exact absurd rfl (unfailed _)

end World

/-! ### the moments of a tick -/

/-- The phases up to the one in which instances are removed and spawned. -/
def Phase.isEarly : Phase → Bool
  | .create | .step | .collision | .custom _ | .commit => true
  | .transition | .request | .close => false

namespace Moment

variable [Scalar τ] {w : World τ} {m next : Moment τ}

theorem begin_early (w : World τ) (delta : τ) : (begin w delta).phase.isEarly = true := by
  unfold begin
  dsimp only
  split <;> rfl

/-- A moment while the events of a tick are played: what belongs to the room stays as it was, and the first
request is the one that is asked for. -/
structure Playing (w : World τ) (m : Moment τ) : Prop where
  early : m.phase.isEarly = true
  unended : m.ending = none
  transition : m.world.transition = w.transition
  room : m.world.room = w.room
  status : m.world.status = w.status
  asked : m.world.FirstAsked

/-- A moment of a tick that began while no transition ran. -/
inductive Eventful (w : World τ) (m : Moment τ) : Prop
  | playing : m.Playing w → Eventful w m
  /-- An action has ended the tick. -/
  | cut : m.ending ≠ none → m.world.transition = w.transition → Eventful w m
  /-- The events are over. -/
  | closing : m.phase.isEarly = false → m.walking = none → m.agenda = [] → m.ending ≠ some .halted →
      (m.phase ≠ .close → m.ending = none → m.world.transition = w.transition) → Eventful w m

omit [Scalar τ] in
private theorem Eventful.busy (eventful : m.Eventful w) (unended : m.ending = none)
    (busy : m.walking ≠ none ∨ m.agenda ≠ []) : m.Playing w := by
  cases eventful with
  | playing playing => exact playing
  | cut ended _ => exact absurd unended ended
  | closing _ idle empty _ _ =>
    rcases busy with walking | agenda
    · exact absurd idle walking
    · exact absurd empty agenda

omit [Scalar τ] in
private theorem Eventful.early (eventful : m.Eventful w) (unended : m.ending = none)
    (early : m.phase.isEarly = true) : m.Playing w := by
  cases eventful with
  | playing playing => exact playing
  | cut ended _ => exact absurd unended ended
  | closing late _ _ _ _ =>
    rw [early] at late
    cases late

omit [Scalar τ] in
private theorem Eventful.unclosed (eventful : m.Eventful w) (unended : m.ending = none)
    (unclosed : m.phase ≠ .close) :
    m.world.transition = w.transition := by
  cases eventful with
  | playing playing => exact playing.transition
  | cut ended _ => exact absurd unended ended
  | closing _ _ _ _ transition => exact transition unclosed unended

omit [Scalar τ] in
/-- A step that is about neither the room nor an action. -/
private theorem Playing.kept (playing : m.Playing w) (early : next.phase.isEarly = true)
    (unended : next.ending = none) (transition : next.world.transition = m.world.transition)
    (room : next.world.room = m.world.room) (status : next.world.status = m.world.status)
    (request : next.world.pending.room = m.world.pending.room)
    (requests : next.world.requests m.world.room = m.world.requests m.world.room) :
    next.Eventful w := by
  refine .playing ⟨early, unended, transition.trans playing.transition, room.trans playing.room,
    status.trans playing.status, ?_⟩
  rw [World.FirstAsked, request, room, requests]
  exact playing.asked

private theorem strode_same {w w' : World τ} {v : Invocation} {frames : List Frame} {s : Stride τ}
    (strode : World.Strode v w frames w' s) : w'.transition = w.transition ∧ w'.room = w.room := by
  obtain ⟨w₀, status, entries, change, rfl, _⟩ := strode.acted
  exact ⟨change.transition, change.room⟩

/-- A step of a tick without a transition keeps the account of what the events have asked for. -/
theorem Moved.eventful (moved : Moved m next) (still : w.transition.isRunning = false)
    (eventful : m.Eventful w) : next.Eventful w := by
  cases moved with
  | walk strode =>
    have playing := eventful.busy rfl (.inl nofun)
    have same := strode_same strode
    exact .playing ⟨playing.early, rfl, same.1.trans playing.transition, same.2.trans playing.room,
      (strode.status nofun).trans playing.status, strode.asks nofun playing.asked⟩
  | park strode =>
    have playing := eventful.busy rfl (.inl nofun)
    have same := strode_same strode
    have asked := strode.asks nofun playing.asked
    refine .playing ⟨playing.early, rfl, same.1.trans playing.transition, same.2.trans playing.room,
      (strode.status nofun).trans playing.status, ?_⟩
    -- that the walk waits is noted as well
    refine Eq.trans asked (congrArg List.head? (Eq.symm ?_))
    exact World.requests_note rfl
  | halt strode | fail strode =>
    have playing := eventful.busy rfl (.inl nofun)
    exact .cut nofun ((strode_same strode).1.trans playing.transition)
  | finish _ =>
    have playing := eventful.busy rfl (.inl nofun)
    exact playing.kept playing.early rfl rfl rfl rfl rfl rfl
  | pass _ | drop _ =>
    have playing := eventful.busy rfl (.inr nofun)
    exact playing.kept playing.early rfl rfl rfl rfl rfl rfl
  | start _ _ | resume _ _ =>
    have playing := eventful.busy rfl (.inr nofun)
    exact playing.kept playing.early rfl rfl rfl rfl rfl (World.requests_note rfl)
  | create | created | stepped | collided | handled _ =>
    have playing := eventful.early rfl rfl
    exact playing.kept rfl rfl rfl rfl rfl rfl rfl
  | step taken =>
    have playing := eventful.early rfl rfl
    rcases World.takeDue_cases taken with ⟨_, rfl, _⟩ | ⟨_, _, _, rfl⟩ <;>
      exact playing.kept rfl rfl rfl rfl rfl rfl rfl
  | handle _ _ taken =>
    subst taken
    have playing := eventful.early rfl rfl
    exact playing.kept rfl rfl rfl rfl rfl rfl (World.requests_note rfl)
  | @commit w' =>
    have playing := eventful.early rfl rfl
    exact .closing rfl rfl rfl nofun fun _ _ => (World.commit_transition w').trans playing.transition
  | @transition w' _ finished =>
    -- no transition runs, so time passes for none
    have same := eventful.unclosed rfl nofun
    have idle : w'.transition.isRunning = false := same ▸ still
    have stays : w'.stepTransition = .finished w' := World.stepTransition_still idle
    refine .closing rfl rfl rfl nofun fun _ _ => ?_
    rw [stays]
    exact same
  | transitionFailed _ =>
    refine .closing rfl rfl rfl (fun halted => ?_) nofun
    exact World.stepTransition_unhalted _ (Option.some.inj halted)
  | request _ => exact .closing rfl rfl rfl nofun fun unclosed => absurd rfl unclosed
  | requestFailed _ =>
    refine .closing rfl rfl rfl (fun halted => ?_) nofun
    exact World.followRequest_unhalted _ (Option.some.inj halted)
  | close => exact .closing rfl rfl rfl nofun nofun

private theorem steps_eventful {delta : τ} (still : w.transition.isRunning = false)
    (unasked : w.pending.room = none) (inside : Steps (begin w delta) m) : m.Eventful w := by
  refine inside.invariant (.playing ?_) fun moved => moved.eventful still
  rw [begin, if_neg (by simpa using still)]
  exact ⟨rfl, rfl, rfl, rfl, rfl, unasked⟩

/-- In a tick that begins without a transition, none runs when a request is followed. -/
theorem steps_unclosed {delta : τ} (still : w.transition.isRunning = false)
    (unasked : w.pending.room = none) (inside : Steps (begin w delta) m) (unended : m.ending = none)
    (unclosed : m.phase ≠ .close) : m.world.transition = w.transition :=
  (steps_eventful still unasked inside).unclosed unended unclosed

/-- A step that carries out no request leaves the tick without one. -/
private theorem Moved.unasked (moved : Moved m next) (silent : m.Silent)
    (unasked : m.world.pending.room = none) : next.world.pending.room = none := by
  cases moved with
  | walk _ | finish _ | park _ | halt _ | fail _ => cases silent.idle
  | pass _ | drop _ | start _ _ | resume _ _ => cases silent.agenda
  | create | created | step _ | stepped | collided | handle _ _ _ | handled _ =>
    have phase := silent.phase
    simp at phase
  | close => exact unasked
  | commit => exact (congrArg Pending.room (World.commit_pending _)).trans unasked
  | transition _ | transitionFailed _ => exact World.stepTransition_unasked unasked
  | request _ | requestFailed _ =>
    rw [World.followRequest_unasked unasked]
    exact unasked

/-- When a request is about to be followed, no transition runs. -/
theorem steps_request {delta : τ} (unasked : w.pending.room = none) (inside : Steps (begin w delta) m)
    (unended : m.ending = none) (phase : m.phase = .request) (asked : m.world.pending.room ≠ none) :
    m.world.transition.isRunning = false := by
  by_cases running : w.transition.isRunning = true
  · -- in such a tick nothing is asked for
    have both : m.Silent ∧ m.world.pending.room = none := by
      refine inside.invariant (P := fun m => m.Silent ∧ m.world.pending.room = none) ?_ ?_
      · refine ⟨steps_silent running .refl, ?_⟩
        rw [begin_world]
        exact unasked
      · rintro m next moved ⟨silent, free⟩
        exact ⟨moved.silent silent, moved.unasked silent free⟩
    exact absurd both.2 asked
  · have still : w.transition.isRunning = false := by simpa using running
    rw [steps_unclosed still unasked inside unended (by rw [phase]; nofun)]
    exact still

end Moment

/-! ### the events of a tick -/

namespace World

variable [Scalar τ] {w : World τ} {delta : τ}

/-- What the events of a tick leave when they have come to their end. -/
structure OnlyAsks (w w' : World τ) : Prop where
  transition : w'.transition = w.transition
  room : w'.room = w.room
  status : w'.status = w.status
  asked : w'.FirstAsked

/-- When the events of a tick have come to their end, the first request among its actions is the one that
is asked for, and the room and the transition are as before. -/
theorem events_ask (unasked : w.pending.room = none) (finished : (w.events delta).ending = .finished) :
    w.OnlyAsks (w.events delta).world := by
  by_cases running : w.transition.isRunning = true
  · rw [events_running running]
    exact ⟨rfl, rfl, rfl, unasked⟩
  · have still : w.transition.isRunning = false := by simpa using running
    have playing := (Moment.steps_eventful still unasked (events_pass finished)).early rfl rfl
    exact ⟨playing.transition, playing.room, playing.status, playing.asked⟩

/-- A tick that an action halts never reaches its transition. -/
theorem tick_halted_transition (still : w.transition.isRunning = false) (unasked : w.pending.room = none)
    (halted : (w.tick delta).ending = .halted) : (w.tick delta).world.transition = w.transition := by
  obtain ⟨last, inside, world, ending⟩ := Moment.tick_passes w delta
  rw [halted] at ending
  rw [← world]
  cases Moment.steps_eventful still unasked inside with
  | playing playing => exact absurd (playing.unended.symm.trans ending) nofun
  | cut _ transition => exact transition
  | closing _ _ _ unhalted _ => exact absurd ending unhalted

end World

end Gameplay
