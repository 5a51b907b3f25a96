import Gameplay.Proofs.Freeze

/-!
# Changes of rooms

A room change that is carried out either puts the run into the new room, or leaves no instance at all and
fails. It is carried out at the end of a tick: when a transition is over, or when one is asked for without
a transition.

## Main results

`Closes.swaps_over` and `Closes.swaps_now`: when a room change is carried out.
`Completes.enters_now` and `Completes.departs`: what becomes of the first request of a tick.
`failed_change_loses_instances`: a room change that fails keeps the room but not its instances.
-/

namespace Gameplay

variable {τ : Type} [Scalar τ]

namespace World

/-- How a change to a room ends, from the world in which instances have been removed and spawned. -/
inductive SwapsTo (c : World τ) (id : String) : Played τ → Prop
  /-- The run goes on in the new room, with the instances that it places. -/
  | arrives {room : RoomDefinition} {is : List (Instance τ)} : c.project.room? id = some room →
      Populates c.program c.lastId room.instances is →
      SwapsTo c id (.finished
        { c.entered room is with
          transition := .idle, status := { c.status with state := .running } }.tidied)
  /-- An object that the room places is not declared. -/
  | stranded {room : RoomDefinition} {placement : Placement} : c.project.room? id = some room →
      placement ∈ room.instances → c.program.objectIndex? placement.objectId = none →
      SwapsTo c id ⟨{ c.leaveRoom with transition := .idle }, .failed (.object placement.objectId)⟩

variable {c : World τ} {p : Played τ} {id : String}

/-- A transition that is over brings the run to its room. -/
theorem Closes.swaps_over (closes : c.Closes p) (running : c.transition.isRunning = true)
    (spent : ¬ 0 < c.transitionLeft) (goal : c.transition.room = some id) : c.SwapsTo id p := by
  cases closes with
  | onward _ left => exact absurd left spent
  | arrives _ _ goal' known populates =>
    cases goal.symm.trans goal'
    exact .arrives known populates
  | stranded _ _ goal' known listed unknown =>
    cases goal.symm.trans goal'
    exact .stranded known listed unknown
  | rests still _ | changes still _ _ _ _ | barred still _ _ _ _ _ | departs still _ _ =>
    exact absurd (still.symm.trans running) nofun

/-- A request without a transition is followed at once, when the tick closes. -/
theorem Closes.swaps_now (closes : c.Closes p) (idle : c.transition = .idle)
    (running : c.status.state = .running) {request : RoomRequest} (asked : c.pending.room = some request)
    (immediate : request.transition = .none) : c.SwapsTo request.room p := by
  -- neither the transition nor the state of the run is changed, as they are what a swap makes them
  have same (w : World τ) (transition : w.transition = c.transition) (status : w.status = c.status) :
      { w with transition := .idle, status := { c.status with state := .running } } = w := by
    rw [← idle, ← running, ← transition, ← status]
  cases closes with
  | changes _ asked' _ known populates =>
    cases asked.symm.trans asked'
    rw [← same (c.entered _ _) rfl rfl]
    exact .arrives known populates
  | barred _ asked' _ known listed unknown =>
    cases asked.symm.trans asked'
    have left : ({ c.leaveRoom with transition := .idle } : World τ) = c.leaveRoom :=
      congrArg (fun t => ({ c.leaveRoom with transition := t } : World τ)) idle.symm
    rw [← left]
    exact .stranded known listed unknown
  | rests _ unasked => exact absurd (asked.symm.trans unasked) nofun
  | departs _ asked' kind =>
    cases asked.symm.trans asked'
    exact absurd immediate kind
  | onward runs _ | arrives runs _ _ _ _ | stranded runs _ _ _ _ _ =>
    rw [idle] at runs
    cases runs

/-- A request with a transition starts that transition. -/
theorem Closes.departs_now (closes : c.Closes p) (still : c.transition.isRunning = false)
    {request : RoomRequest} (asked : c.pending.room = some request) (timed : request.transition ≠ .none) :
    p = .finished
      { c with
        pending := { c.pending with room := none }
        transition := ⟨request.transition, Transition.duration, some request.room⟩
        status := { c.status with state := .transitioning } }.tidied := by
  cases closes with
  | departs _ asked' _ =>
    cases asked.symm.trans asked'
    rfl
  | changes _ asked' immediate _ _ | barred _ asked' immediate _ _ _ =>
    cases asked.symm.trans asked'
    exact absurd immediate timed
  | rests _ unasked => exact absurd (asked.symm.trans unasked) nofun
  | onward runs _ | arrives runs _ _ _ _ | stranded runs _ _ _ _ _ =>
    exact absurd (still.symm.trans runs) nofun

/-- A tick without a request closes in the same room. -/
theorem Closes.stays (closes : c.Closes p) (still : c.transition.isRunning = false)
    (unasked : c.pending.room = none) : p = .finished c.tidied := by
  cases closes with
  | rests _ _ => rfl
  | changes _ asked _ _ _ | barred _ asked _ _ _ _ | departs _ asked _ =>
    exact absurd (unasked.symm.trans asked) nofun
  | onward runs _ | arrives runs _ _ _ _ | stranded runs _ _ _ _ _ =>
    exact absurd (still.symm.trans runs) nofun

/-- The end of a tick fails only on a change of rooms, which leaves the room but no instance. -/
theorem Closes.failed (closes : c.Closes p) {cause : Dangling} (failed : p.ending = .failed cause) :
    (∃ id room placement, c.project.room? id = some room ∧ placement ∈ room.instances ∧
      c.program.objectIndex? placement.objectId = none ∧ cause = .object placement.objectId) ∧
    p.world.instances = [] ∧ p.world.room = c.room := by
  cases closes with
  | stranded _ _ _ known listed unknown =>
    cases failed
    exact ⟨⟨_, _, _, known, listed, unknown, rfl⟩, rfl, rfl⟩
  | barred _ _ _ known listed unknown =>
    cases failed
    exact ⟨⟨_, _, _, known, listed, unknown, rfl⟩, rfl, rfl⟩
  | onward _ _ | arrives _ _ _ _ _ | rests _ _ | changes _ _ _ _ _ | departs _ _ _ => cases failed

theorem Closes.journal (closes : c.Closes p) : p.world.journal = c.journal := by
  cases closes <;> rfl

end World

namespace Game

/-- A tick that plays carries out a change to a room. If it succeeds the run goes on in this room, and
neither a transition nor a request is left of the change. -/
structure Enters (g : Game τ) (delta : τ) (room : String) : Prop where
  plays : g.Plays delta
  swaps : (g.world.events delta).world.commit.SwapsTo room (g.world.tick delta)
  succeeds : (g.tick delta).2 = none →
    (g.tick delta).1.state = .running ∧ (g.tick delta).1.world.room.map (·.id) = some room
  done : (g.tick delta).1.world.transition = .idle ∧ (g.tick delta).1.world.pending = .none

theorem Plays.enters {g : Game τ} {delta : τ} {room : String} (plays : g.Plays delta)
    (swaps : (g.world.events delta).world.commit.SwapsTo room (g.world.tick delta)) :
    g.Enters delta room := by
  have outcome : ((g.tick delta).2 = none →
      (g.tick delta).1.state = .running ∧ (g.tick delta).1.world.room.map (·.id) = some room) ∧
      (g.tick delta).1.world.transition = .idle ∧ (g.tick delta).1.world.pending = .none := by
    rw [plays.tick]
    generalize g.world.tick delta = p at swaps
    cases swaps with
    | arrives known _ => exact ⟨fun _ => ⟨rfl, congrArg some (World.room?_id known)⟩, rfl, rfl⟩
    | stranded _ _ _ => exact ⟨nofun, rfl, rfl⟩
  exact ⟨plays, swaps, outcome.1, outcome.2⟩

/-! ### ticks that play their events to the end -/

/-- A tick of a settled game whose events come to their end: what they leave, and how the tick closes. -/
structure Completes (g : Game τ) (delta : τ) : Prop where
  plays : g.Plays delta
  settled : g.world.Settled
  asks : g.world.OnlyAsks (g.world.events delta).world.commit
  closes : (g.world.events delta).world.commit.Closes (g.world.tick delta)

theorem Plays.completes [Timed τ] {settings : Settings} {calls : List (HostCall τ)} {delta : τ}
    (plays : ((new settings : Game τ).after calls).Plays delta)
    (finished : (((new settings : Game τ).after calls).world.events delta).ending = .finished) :
    ((new settings : Game τ).after calls).Completes delta := by
  have settled : ((new settings : Game τ).after calls).world.Settled := after_settled settings calls
  obtain ⟨asks, closes⟩ := settled.closes (after_coherent settings calls) (after_declared settings calls)
    plays.live finished
  exact ⟨plays, settled, asks, closes⟩

namespace Completes

variable {g : Game τ} {delta : τ} {request : RoomRequest}

private theorem happenings (complete : g.Completes delta) :
    (g.tick delta).1.world.happenings = (g.world.events delta).world.commit.happenings :=
  complete.plays.leaves.1.trans (congrArg List.reverse complete.closes.journal)

/-- When the tick closes, the first request among its actions is the one that is asked for. -/
theorem first (complete : g.Completes delta) : (g.world.events delta).world.commit.pending.room =
    ((g.tick delta).1.world.requests g.world.room).head? := by
  have asked := complete.asks.asked
  rw [World.FirstAsked, complete.asks.room] at asked
  rw [asked, World.requests, World.requests, complete.happenings]

theorem still (complete : g.Completes delta)
    (requested : (g.tick delta).1.world.requests g.world.room ≠ []) :
    g.world.transition.isRunning = false := by
  by_contra running
  -- while a transition runs no events are played, so nothing is noted
  have quiet : (g.world.events delta).world.commit = g.world.opened delta :=
    complete.settled.commit_running (by simpa using running)
  rw [World.requests, complete.happenings, quiet] at requested
  exact requested rfl

private theorem world_eq (complete : g.Completes delta) {w : World τ}
    (ends : g.world.tick delta = .finished w) : (g.tick delta).1.world = w :=
  (complete.plays.world (congrArg Played.ending ends)).trans (congrArg Played.world ends)

theorem rests (complete : g.Completes delta) (still : g.world.transition.isRunning = false)
    (unasked : (g.tick delta).1.world.requests g.world.room = []) :
    (g.tick delta).1.world = (g.world.events delta).world.commit.tidied := by
  have first := complete.first
  rw [unasked] at first
  exact complete.world_eq (complete.closes.stays (complete.asks.transition ▸ still) first)

variable {rest : List RoomRequest}

/-- A tick whose first request has no transition ends in the room that was asked for. -/
theorem enters_now (complete : g.Completes delta)
    (requested : (g.tick delta).1.world.requests g.world.room = request :: rest)
    (immediate : request.transition = .none) : g.Enters delta request.room := by
  have still := complete.still (requested ▸ List.cons_ne_nil _ _)
  have first := complete.first
  rw [requested] at first
  apply complete.plays.enters
  apply complete.closes.swaps_now _ _ first immediate
  · exact complete.asks.transition.trans (complete.settled.transition.eq_idle still)
  · exact (congrArg Status.state complete.asks.status).trans
      (complete.settled.state_still complete.plays.live still)

/-- A tick whose first request has a transition ends with that transition begun, in the same room. -/
theorem departs (complete : g.Completes delta)
    (requested : (g.tick delta).1.world.requests g.world.room = request :: rest)
    (timed : request.transition ≠ .none) :
    (g.tick delta).1.world.transition = ⟨request.transition, Transition.duration, some request.room⟩ ∧
      (g.tick delta).1.world.room = g.world.room := by
  have still := complete.still (requested ▸ List.cons_ne_nil _ _)
  have first := complete.first
  rw [requested] at first
  rw [complete.world_eq (complete.closes.departs_now (complete.asks.transition ▸ still) first timed)]
  exact ⟨rfl, complete.asks.room⟩

end Completes

/-- A tick that plays its events to their end and still fails has failed on a change of rooms: an object that
the new room places is not declared. Then the run stops in the old room, and no instance is left in it. -/
theorem failed_change_loses_instances (settings : Settings) (calls : List (HostCall Float)) (delta : Float) :
    let g : Game Float := (new settings).after calls
    let before := (g.world.events delta).world.commit
    g.Plays delta → (g.world.events delta).ending = .finished → (g.tick delta).2 ≠ none →
      (∃ id room placement, before.project.room? id = some room ∧ placement ∈ room.instances ∧
        before.program.objectIndex? placement.objectId = none ∧
        (g.tick delta).2 = some (.dangling (.object placement.objectId))) ∧
      (g.tick delta).1.state = .stopped ∧ (g.tick delta).1.world.room = before.room ∧
      before.room = g.world.room ∧ (g.tick delta).1.world.instances = [] := by
  intro g before plays finished failed
  have complete : g.Completes delta := plays.completes finished
  rw [plays.tick, settle] at failed ⊢
  split at failed
  next cause ended =>
    obtain ⟨⟨id, room, placement, known, listed, unknown, rfl⟩, instances, same⟩ :=
      complete.closes.failed ended
    refine ⟨⟨id, room, placement, known, listed, unknown, rfl⟩, rfl, same, complete.asks.room, ?_⟩
    -- the stop drops the waits of the instances, of which there are none
    exact congrArg (List.map fun i : Instance Float => { i with waits := [] }) instances
  next => exact absurd rfl failed

/-- The cat leaves for an attic with a ghost, and no ghost is declared. -/
def haunted : List (HostCall Float) := [.start (leaving .none [⟨"corner", "ghost", 0, 0, none⟩]) "hall"]

private theorem haunted_fails : ((new .default : Game Float).after haunted).Plays 16 ∧
    (((new .default : Game Float).after haunted).world.events 16).ending = .finished ∧
    (((new .default : Game Float).after haunted).tick 16).2 ≠ none := by decide +kernel

/-- The cat of the hall is lost. -/
theorem failed_change_loses_instances_haunted :
    let g : Game Float := (new .default).after haunted
    g.Plays 16 ∧ (g.world.events 16).ending = .finished ∧ (g.tick 16).2 ≠ none ∧
      g.world.instances ≠ [] ∧ (g.tick 16).1.world.instances = [] := by
  obtain ⟨plays, finished, failed⟩ := haunted_fails
  have present : ((new .default : Game Float).after haunted).world.instances ≠ [] := by decide +kernel
  obtain ⟨_, _, _, _, lost⟩ := failed_change_loses_instances .default haunted 16 plays finished failed
  exact ⟨plays, finished, failed, present, lost⟩

/-- It is not so that a room change that fails keeps the instances, with their ids, positions and
variables. -/
theorem failed_change_keeps_instances_refuted :
    ¬ ∀ (settings : Settings) (calls : List (HostCall Float)) (delta : Float),
      let g : Game Float := (new settings).after calls
      let before := (g.world.events delta).world.commit
      let after := (g.tick delta).1.world
      g.Plays delta → (g.world.events delta).ending = .finished → (g.tick delta).2 ≠ none →
        after.room = before.room ∧
          after.instances.map (fun i => (i.id, i.position, i.locals)) =
            before.instances.map fun i => (i.id, i.position, i.locals) := by
  intro kept
  obtain ⟨plays, finished, failed⟩ := haunted_fails
  have same := (kept .default haunted 16 plays finished failed).2
  -- there is one instance before, and none after
  have count := congrArg List.length same
  simp only [List.length_map] at count
  revert count
  decide +kernel

end Game

end Gameplay
