import Gameplay.Proofs.Ledger
import Gameplay.Proofs.RoomChange

/-!
# Instances are conserved

A tick that changes no room removes the instances that its actions destroyed, adds those that its actions
asked for, and leaves every other instance what it was.

## Main result

`tick_conserves_instances`: this holds for every such tick of every run.

## Proof strategy

Until the end of the tick the records (`World.Ledger`) say what will become of the instances, and the end of
the tick goes by them. The other direction, that nothing destroyed is left, comes from what is known of
destroyed instances at every later moment (`Moment.Gone`).
-/

namespace Gameplay

variable {τ : Type} [Scalar τ]

namespace Moment

variable {m next last : Moment τ} {s t : Spawn}

theorem Steps.spawned (steps : Steps m last) : m.world.spawned ≤ last.world.spawned := by
  refine steps.invariant (P := fun later => m.world.spawned ≤ later.world.spawned) (Nat.le_refl _) ?_
  intro later next moved before
  obtain ⟨entries, journal, _⟩ := moved.notes
  rw [World.spawned_append entries journal]
  exact Nat.le_trans before (Nat.le_add_right _ _)

theorem Spawns.counts (spawns : Spawns s m next) : next.world.spawned = m.world.spawned + 1 := by
  obtain ⟨_, v, action, noted, asks⟩ := spawns
  rw [World.spawned_append [.performed v action] noted]
  simp [Happening.isSpawn, asks.isSpawn]

omit [Scalar τ] in
/-- An action asks for one instance at most. -/
private theorem asks_unique {w : World τ} {v : Invocation} {action : Action} (first : action.Spawns w v s)
    (second : action.Spawns w v t) : s = t := by
  cases first with
  | absolute known reached =>
    cases second with
    | absolute known' reached' =>
      cases known.symm.trans known'
      cases reached.symm.trans reached'
      rfl
  | relative known reached own =>
    cases second with
    | relative known' reached' own' =>
      cases known.symm.trans known'
      cases reached.symm.trans reached'
      cases own.symm.trans own'
      rfl

private theorem Spawns.unique {next' : Moment τ} (first : Spawns s m next) (second : Spawns t m next') :
    s = t := by
  obtain ⟨stepped, v, action, noted, asks⟩ := first
  obtain ⟨stepped', v', action', noted', asks'⟩ := second
  cases stepped.symm.trans stepped'
  cases (List.cons.inj (noted.symm.trans noted')).1
  exact asks_unique asks asks'

end Moment

namespace World

variable {w : World τ} {delta : τ} {id k : Nat} {s t : Spawn}

private theorem asked_unique {m next m' next' : Moment τ} (first : Moment.Spawns s m next)
    (second : Moment.Spawns t m' next') (same : m.world.spawned = m'.world.spawned)
    (steps : Moment.Steps m m') : s = t := by
  rcases Relation.ReflTransGen.cases_head steps with rfl | ⟨after, stepped, rest⟩
  · exact first.unique second
  · -- the later of two would count the earlier
    cases first.stepped.symm.trans stepped
    have counted := first.counts
    have more := Moment.Steps.spawned rest
    omega

theorem Asked.unique (first : w.Asked delta k s) (second : w.Asked delta k t) : s = t := by
  obtain ⟨m, next, inside, spawns, count⟩ := first
  obtain ⟨m', next', inside', spawns', count'⟩ := second
  rcases Moment.Steps.total inside inside' with later | earlier
  · exact asked_unique spawns spawns' (count.trans count'.symm) later
  · exact (asked_unique spawns' spawns (count'.trans count.symm) earlier).symm

/-- What the tick asks for is among all that it asks for. -/
theorem Asked.lt (asked : w.Asked delta k s) : k < (w.tick delta).world.spawned := by
  obtain ⟨m, next, inside, spawns, rfl⟩ := asked
  obtain ⟨last, steps, world, _⟩ := Moment.tick_goes_on (inside.tail spawns.stepped)
  have counted := spawns.counts
  have more := steps.spawned
  rw [world] at more
  omega

/-- What an action of the tick is aimed at is destroyed when the tick is over. -/
theorem Aimed.dead (coherent : w.Coherent) (aimed : w.Aimed delta id) : (w.tick delta).world.Dead id := by
  obtain ⟨v, m, next, inside, destroys⟩ := aimed
  have gone := destroys.gone (Moment.steps_coherent coherent inside) (Moment.steps_met coherent inside)
  obtain ⟨last, steps, world, _⟩ := Moment.tick_goes_on (inside.tail destroys.stepped)
  rw [← world]
  exact (gone.later steps).dead

/-- What becomes of the instances of a world in a tick: some stay, and some are added behind them. -/
structure Conserves (w : World τ) (delta : τ) (after : World τ) (stayed added : List (Instance τ)) :
    Prop where
  instances : after.instances = stayed ++ added
  distinct : (after.instances.map (·.id)).Nodup
  /-- Those stay at which no action of the tick was aimed. -/
  stays : ∀ id, id ∈ stayed.map (·.id) ↔ id ∈ w.instances.map (·.id) ∧ ¬ w.Aimed delta id
  persist : ∀ j ∈ stayed, ∃ i ∈ w.instances, i.Persists j
  /-- The ids that follow the last one are given out, one for each action that asked for an instance. -/
  ids : added.map (·.id) = List.range' (w.lastId + 1) after.spawned
  lastId : after.lastId = w.lastId + after.spawned
  /-- The instances are added in the order in which they were asked for. -/
  requested : ∀ k i, added[k]? = some i → ∃ s, w.Asked delta k s ∧ s.Creates w.program i
  created : ∀ k s, w.Asked delta k s → ∃ i, added[k]? = some i ∧ s.Creates w.program i

/-- What no action is aimed at is not removed. -/
private theorem Ledger.spares {c : World τ} (ledger : w.Ledger delta c) {i : Instance τ}
    (member : i ∈ w.instances) (unaimed : ¬ w.Aimed delta i.id) :
    ∃ j ∈ c.instances.filter fun j => !(c.pending.destroys.contains j.id && j.destroyed), i.Persists j := by
  obtain ⟨j, present, persists⟩ := related_mem ledger.persist.flip member
  have unlisted : j.id ∉ c.pending.destroys := by
    rw [persists.id]
    exact fun listed => unaimed (ledger.aimed i.id listed)
  refine ⟨j, List.mem_filter.mpr ⟨present, ?_⟩, persists⟩
  simp [unlisted]

/-- A tick that leaves the instances to the records conserves them. -/
theorem Ledger.conserves {c : World τ} (ledger : w.Ledger delta c) (coherent : w.Coherent)
    (program : c.program = w.program) (distinct : ((w.tick delta).world.instances.map (·.id)).Nodup)
    (instances : (w.tick delta).world.instances = c.commit.instances)
    (lastId : (w.tick delta).world.lastId = c.commit.lastId)
    (spawned : (w.tick delta).world.spawned = c.spawned) :
    ∃ stayed added, w.Conserves delta (w.tick delta).world stayed added := by
  have alive := ledger.commit_alive program
  obtain ⟨is, ids, creates, last, left⟩ := commit_spawns (ledger.known program)
  rw [program] at creates
  rw [ledger.count, ← spawned, ledger.lastId] at ids last
  have requested : ∀ k i, is[k]? = some i → ∃ s, w.Asked delta k s ∧ s.Creates w.program i := by
    intro k i found
    obtain ⟨s, queued, created⟩ := related_at creates.flip found
    exact ⟨s, ledger.asked k s queued, created⟩
  refine ⟨_, is, instances.trans left, distinct, fun id => ?_, fun j member => ?_, ids, lastId.trans last,
    requested, fun k s asked => ?_⟩
  · constructor
    · intro stayed
      obtain ⟨j, member, rfl⟩ := List.mem_map.mp stayed
      obtain ⟨i, there, persists⟩ := related_mem ledger.persist (List.mem_filter.mp member).1
      refine ⟨List.mem_map.mpr ⟨i, there, persists.id.symm⟩, fun aimed => ?_⟩
      -- what is destroyed at the end of the tick is marked, but nothing is
      have present : j ∈ c.commit.instances := left ▸ List.mem_append_left _ member
      have marked := aimed.dead coherent j (instances ▸ present) rfl
      rw [alive j present] at marked
      cases marked
    · rintro ⟨there, unaimed⟩
      obtain ⟨i, member, rfl⟩ := List.mem_map.mp there
      obtain ⟨j, stays, persists⟩ := ledger.spares member unaimed
      exact List.mem_map.mpr ⟨j, stays, persists.id⟩
  · exact related_mem ledger.persist (List.mem_filter.mp member).1
  · -- there are as many as were asked for, and no two take the same place
    have within : k < is.length := by
      have count := congrArg List.length ids
      rw [List.length_map, List.length_range'] at count
      rw [count]
      exact asked.lt
    obtain ⟨t, asked', created⟩ := requested k is[k] (List.getElem?_eq_getElem within)
    exact ⟨is[k], List.getElem?_eq_getElem within, asked.unique asked' ▸ created⟩

end World

namespace Game

/-- The tick changes the room at its end. -/
inductive SwapsRoom (g : Game τ) (delta : τ) : Prop
  /-- A transition is over. -/
  | arrives : g.world.transition.isRunning = true → ¬ 0 < (g.world.opened delta).transitionLeft →
      SwapsRoom g delta
  /-- The first room that is asked for is asked for without a transition. -/
  | changes {request : RoomRequest} :
      ((g.tick delta).1.world.requests g.world.room).head? = some request →
      request.transition = .none → SwapsRoom g delta

namespace Completes

variable {g : Game τ} {delta : τ}

/-- Without a change of the room the end of a tick leaves what the commit has left, but for the transition, the
status and the request. -/
theorem stays (complete : g.Completes delta) (ended : (g.world.tick delta).ending = .finished)
    (unswapped : ¬ g.SwapsRoom delta) :
    let c := (g.world.events delta).world.commit
    ∃ transition status room, (g.world.tick delta).world = World.tidied
      { c with transition := transition, status := status, pending := { c.pending with room := room } } := by
  -- the tick closes in one of few ways, and those that change the room are ruled out
  have first := complete.first
  have closes := complete.closes
  have running (runs : g.world.transition.isRunning = true) :
      (g.world.events delta).world.commit = g.world.opened delta := complete.settled.commit_running runs
  rw [← complete.asks.transition] at running
  generalize g.world.tick delta = p at ended closes
  cases closes with
  | onward _ _ | rests _ _ | departs _ _ _ => exact ⟨_, _, _, rfl⟩
  | arrives runs spent _ _ _ =>
    have same := running runs
    rw [same] at runs spent
    exact absurd (.arrives runs spent) unswapped
  | changes _ asked immediate _ _ => exact absurd (.changes (first.symm.trans asked) immediate) unswapped
  | stranded _ _ _ _ _ _ | barred _ _ _ _ _ _ => cases ended

theorem keeps (complete : g.Completes delta) (ended : (g.world.tick delta).ending = .finished)
    (unswapped : ¬ g.SwapsRoom delta) :
    (g.world.tick delta).world.instances = (g.world.events delta).world.commit.instances ∧
      (g.world.tick delta).world.lastId = (g.world.events delta).world.commit.lastId := by
  obtain ⟨_, _, _, same⟩ := complete.stays ended unswapped
  rw [same]
  exact ⟨rfl, rfl⟩

/-- After a change of the room nothing is pending. -/
theorem swapped (complete : g.Completes delta) (ended : (g.world.tick delta).ending = .finished)
    (swaps : g.SwapsRoom delta) : (g.world.tick delta).world.pending = .none := by
  have first := complete.first
  have closes := complete.closes
  have running (runs : g.world.transition.isRunning = true) :
      (g.world.events delta).world.commit = g.world.opened delta := complete.settled.commit_running runs
  have still (requested : (g.tick delta).1.world.requests g.world.room ≠ []) :
      (g.world.events delta).world.commit.transition.isRunning = false := by
    rw [complete.asks.transition]
    exact complete.still requested
  -- only an arrival and an immediate change leave nothing pending, and no other way changes the room
  generalize g.world.tick delta = p at ended closes
  cases closes with
  | arrives _ _ _ _ _ | changes _ _ _ _ _ => rfl
  | stranded _ _ _ _ _ _ | barred _ _ _ _ _ _ => cases ended
  | onward runs left =>
    cases swaps with
    | arrives before spent =>
      rw [running before] at left
      exact absurd left spent
    | changes asked _ =>
      have idle := still fun none => by simp [none] at asked
      exact absurd (idle.symm.trans runs) nofun
  | rests idle unasked =>
    cases swaps with
    | arrives before _ =>
      rw [← complete.asks.transition, idle] at before
      cases before
    | changes asked _ => exact absurd (first.symm.trans unasked) (by rw [asked]; nofun)
  | departs idle asked' timed =>
    cases swaps with
    | arrives before _ =>
      rw [← complete.asks.transition, idle] at before
      cases before
    | changes asked immediate =>
      cases asked.symm.trans (first.symm.trans asked')
      exact absurd immediate timed

end Completes

private theorem plays_of_live {g : Game τ} {delta : τ} (before : g.state.isLive = true)
    (after : (g.tick delta).1.state.isLive = true) : g.Plays delta := by
  simp only [tick] at after
  split at after
  · cases after
  next finite =>
    split at after
    · cases after
    next forward => exact ⟨by simpa using finite, forward, before⟩

/-- No instance is lost, duplicated or left behind by a tick. Let a tick of any run begin and end with the run
live and change no room. Then the instances after it are those before it at which none of its actions was
aimed, each with its id, object, placement and collider, and behind them one for each spawn action: in the
order of these actions, with the ids that follow the last one given out, with the object and at the position
that was asked for, with initial variables and with its create events still to come. -/
theorem tick_conserves_instances (settings : Settings) (calls : List (HostCall Float)) (delta : Float) :
    let g : Game Float := (new settings).after calls
    g.state.isLive = true → (g.tick delta).1.state.isLive = true → ¬ g.SwapsRoom delta →
      ∃ stayed added, g.world.Conserves delta (g.tick delta).1.world stayed added := by
  intro g live still unswapped
  have plays : g.Plays delta := plays_of_live live still
  -- a tick that is cut short stops the run
  have ended : (g.world.tick delta).ending = .finished := by
    by_contra early
    rw [plays.stops early] at still
    cases still
  have finished : (g.world.events delta).ending = .finished := by
    by_contra early
    exact early (World.tick_early early ▸ ended)
  have complete : g.Completes delta := plays.completes finished
  have coherent : g.world.Coherent := after_coherent settings calls
  have ledger : g.world.Ledger delta (g.world.events delta).world :=
    complete.settled.ledger coherent (after_intact settings calls) live finished
  obtain ⟨instances, lastId⟩ := complete.keeps ended unswapped
  have journal : (g.world.tick delta).world.journal = (g.world.events delta).world.journal :=
    complete.closes.journal.trans (World.commit_sameRun _).journal
  rw [plays.world ended]
  exact ledger.conserves coherent (Moment.tick_sameGame (World.events_pass finished)).2.1
    (kept_coherent.tick g.world delta live coherent).ids instances lastId (World.spawned_quiet [] journal rfl)

/-- The cat has two kittens and destroys itself, twice; the dog sleeps. -/
def litter : Project where
  version := 1
  declarations := []
  objects := [
    ⟨"cat", "Cat", none, some 1, some 1, false, [],
      [⟨.step, .act (.spawnObject "kitten" (.literal (.number 2)) (.literal (.number 3)) false)
        (.act .destroySelf (.act .destroySelf
          (.act (.spawnObject "kitten" (.literal (.number 4)) (.literal (.number 0)) true) .done)))⟩]⟩,
    ⟨"dog", "Dog", none, some 1, some 1, false, [], []⟩,
    ⟨"kitten", "Kitten", none, some 1, some 1, false, [], []⟩]
  rooms := [⟨"room", "Room", 10, 10, [⟨"bed", "cat", 0, 0, none⟩, ⟨"rug", "dog", 5, 5, none⟩]⟩]
  sprites := []
  sounds := []

/-- The dog stays, and the kittens come, also the one that was asked for after the destruction. -/
theorem tick_conserves_instances_litter :
    let g : Game Float := (new .default).after [.start litter "room"]
    g.state.isLive = true ∧ (g.tick 16).1.state.isLive = true ∧ ¬ g.SwapsRoom 16 ∧
      (g.tick 16).1.world.instances.map (fun i => (i.id, i.object)) = [(2, 1), (3, 2), (4, 2)] ∧
      ∃ stayed added, g.world.Conserves 16 (g.tick 16).1.world stayed added := by
  have before : ((new .default : Game Float).after [.start litter "room"]).state.isLive = true := by
    decide +kernel
  have after : (((new .default : Game Float).after [.start litter "room"]).tick 16).1.state.isLive = true := by
    decide +kernel
  -- neither a transition runs nor has an action asked for a room
  have unswapped : ¬ ((new .default : Game Float).after [.start litter "room"]).SwapsRoom 16 := by
    have still : ((new .default : Game Float).after
        [.start litter "room"]).world.transition.isRunning = false := by decide +kernel
    have unasked : ((((new .default : Game Float).after [.start litter "room"]).tick 16).1.world.requests
        ((new .default : Game Float).after [.start litter "room"]).world.room).head? = none := by
      decide +kernel
    intro swaps
    cases swaps with
    | arrives runs _ => exact absurd (still.symm.trans runs) nofun
    | changes asked _ => exact absurd (unasked.symm.trans asked) nofun
  exact ⟨before, after, unswapped, by decide +kernel,
    tick_conserves_instances .default [.start litter "room"] 16 before after unswapped⟩

end Game

end Gameplay
