import Gameplay.Proofs.Ticks

/-!
# Create events

The Create events of an instance are started on the first tick after its spawn that begins without a
transition, before anything else is, and never again.

## Main result

`create_runs_once`: this holds for every instance of every run.

## Proof strategy

Before that tick the instance is fresh and nothing has been started at all; after it, it is not fresh any
more. `Stage` says which of the two holds after some calls, and every call leads from one stage to another.
-/

namespace Gameplay.Game

section

variable {τ : Type} [Scalar τ]

/-- Those of some ticks that begin without a transition. -/
def unfrozen (ticks : List (Game τ × Game τ)) : List (Game τ × Game τ) :=
  ticks.filter fun (before, _) => !before.world.transition.isRunning

/-- The invocations of a slot of an instance that some ticks have started. -/
def startsOf (ticks : List (Game τ × Game τ)) (id slot : Nat) : List Invocation :=
  ticks.flatMap fun (_, after) => after.world.starts.filter fun v => v.actor == id && v.slot == slot

/-- The turns of a tick are those of Create events, in ascending order of instance and slot, and then others. -/
def CreatesFirst (w : World τ) : Prop :=
  ∃ (created : List Invocation) (rest : List (Turn τ)), w.turns = created.map .start ++ rest ∧
    created.Pairwise (·.place < ·.place) ∧
    (∀ v ∈ created, v.partner = none ∧ w.program.trigger? v.object v.slot = some .create) ∧
    ∀ v, .start v ∈ rest → w.program.trigger? v.object v.slot ≠ some .create

end

section

variable {τ : Type} [Scalar τ] {g : Game τ} {delta : τ} {calls : List (HostCall τ)}

theorem Plays.turns (plays : g.Plays delta) :
    (g.tick delta).1.world.turns = (g.world.tick delta).world.turns := by
  rw [World.turns, plays.leaves.1, World.turns]

theorem Plays.starts (plays : g.Plays delta) :
    (g.tick delta).1.world.starts = (g.world.tick delta).world.starts :=
  congrArg (List.filterMap Turn.starts?) plays.turns

/-- While a transition runs, a tick has no turns. -/
theorem Plays.turns_running (plays : g.Plays delta) (running : g.world.transition.isRunning = true) :
    (g.tick delta).1.world.turns = [] := by
  obtain ⟨last, inside, world, _⟩ := Moment.tick_passes g.world delta
  rw [plays.turns, ← world, World.turns, World.happenings, (Moment.steps_silent running inside).journal]
  rfl

theorem Plays.starts_running (plays : g.Plays delta) (running : g.world.transition.isRunning = true) :
    (g.tick delta).1.world.starts = [] :=
  congrArg (List.filterMap Turn.starts?) (plays.turns_running running)

/-! ### spawns -/

/-- What a call spawns has had no event when the call is over. -/
structure Spawned (born : Game τ) (id : Nat) : Prop where
  unstarted : ∀ v ∈ born.world.starts, v.actor ≠ id
  new : ∀ j ∈ born.world.instances, j.id = id → j.fresh = true ∧ j.waits = []

/-- What a start spawns is fresh, and nothing of it waits. -/
theorem start_spawned (g : Game τ) (project : Project) (room : String) (id : Nat) :
    (g.start project room).1.Spawned id := by
  simp only [start]
  split
  · -- such a run has neither begun nor any instance
    exact ⟨fun v started => absurd started List.not_mem_nil, fun j member => absurd member List.not_mem_nil⟩
  next program _ =>
    obtain ⟨created, creates⟩ := World.enterRoom_creates (loaded g.world project program) room
    have journal := (World.enterRoom_sameRun (loaded g.world project program) room).journal
    have new : ∀ j ∈ ((loaded g.world project program).enterRoom room).world.instances,
        j.fresh = true ∧ j.waits = [] := by
      intro j member
      have new := creates.new j (creates.instances j member)
      exact ⟨new.fresh, new.waits⟩
    unfold loaded at journal new
    dsimp only at journal new ⊢
    generalize World.enterRoom _ room = p at journal new ⊢
    -- whether or not the room can be entered, nothing has happened yet
    have unstarted {w : World τ} (same : w.journal = p.world.journal) : ∀ v ∈ w.starts, v.actor ≠ id := by
      rw [World.starts, World.turns, World.happenings, same, journal]
      exact fun v started => absurd started List.not_mem_nil
    obtain ⟨w, ending⟩ := p
    cases ending with
    | finished => exact ⟨unstarted rfl, fun j member _ => new j member⟩
    | halted => exact ⟨unstarted rfl, fun j member _ => new j member⟩
    | failed cause =>
      refine ⟨unstarted rfl, fun j member _ => ?_⟩
      obtain ⟨k, there, rfl⟩ := List.mem_map.mp member
      exact ⟨(new k there).1, rfl⟩

/-- What a tick spawns is fresh, and nothing of it waits. -/
theorem Plays.spawned (plays : g.Plays delta) (ready : g.world.Ready) {id : Nat} (later : g.world.lastId < id) :
    (g.tick delta).1.Spawned id := by
  constructor
  · intro v started same
    rw [plays.starts] at started
    obtain ⟨i, member, mine, _⟩ := ready.tick_has started
    have given := (ready.coherent.instances i member).given
    omega
  · intro j member same
    obtain ⟨k, there, kept⟩ := plays.members member
    have mine : k.id = j.id := by rcases kept with rfl | rfl <;> rfl
    have new := ready.tick_new delta k there (by omega)
    rcases kept with rfl | rfl
    · exact ⟨new.fresh, new.waits⟩
    · exact ⟨new.fresh, rfl⟩

/-- Ids are given out by calls that start a run or play a tick. -/
theorem call_spawned [Timed τ] (settings : Settings) (calls : List (HostCall τ)) (c : HostCall τ) {id : Nat}
    (given : id ≤ (((new settings : Game τ).after calls).call c).1.world.lastId)
    (fresh : c.staysInRun = true → ((new settings : Game τ).after calls).world.lastId < id) :
    (((new settings : Game τ).after calls).call c).1.Spawned id := by
  by_cases stays : c.staysInRun = true
  · have later := fresh stays
    rcases call_cases _ stays with ⟨delta, rfl, plays⟩ | ⟨_, same | ⟨keys, sounds, same⟩⟩
    · exact plays.spawned plays.ready later
    · rw [same] at given
      exact absurd given (Nat.not_le_of_lt later)
    · rw [same] at given
      exact absurd given (Nat.not_le_of_lt later)
  · cases c with
    | start project room => exact start_spawned _ project room id
    | reset => exact ⟨nofun, nofun⟩
    | tick _ | press _ | release _ | releaseAll | stop | takeSounds | snapshot => exact absurd rfl stays

/-! ### one tick -/

/-- A tick starts a Create slot of an instance at most once, and only if the instance is fresh. -/
private theorem tick_starts_slot {w : World τ} (ready : w.Ready) (delta : τ)
    (still : w.transition.isRunning = false) {id object slot : Nat}
    (own : ∀ j ∈ w.instances, j.id = id → j.object = object)
    (create : w.program.trigger? object slot = some .create) :
    (((w.tick delta).world.starts.filter fun v => v.actor == id && v.slot == slot).length ≤ 1) ∧
      ∀ v ∈ (w.tick delta).world.starts, v.actor = id → v.slot = slot →
        v = ⟨id, object, slot, none⟩ ∧ v ∈ w.createPlan := by
  have same : ∀ v ∈ (w.tick delta).world.starts, v.actor = id → v.slot = slot →
      v = ⟨id, object, slot, none⟩ ∧ v ∈ w.createPlan := by
    rintro ⟨_, object', _, partner⟩ started rfl rfl
    obtain ⟨j, member, mine, rfl⟩ := ready.tick_has started
    have sameObject := own j member mine
    dsimp only at sameObject started create ⊢
    subst sameObject
    have planned := (ready.tick_creates delta still create).2 started
    cases (World.createPlan_creates planned).1
    exact ⟨rfl, planned⟩
  refine ⟨?_, same⟩
  -- all of them are the same invocation, which is started at most once
  have alike := List.eq_replicate_of_mem (a := (⟨id, object, slot, none⟩ : Invocation))
    (l := (w.tick delta).world.starts.filter fun v => v.actor == id && v.slot == slot) fun v listed => by
      obtain ⟨started, mine⟩ := List.mem_filter.mp listed
      simp only [Bool.and_eq_true, beq_iff_eq] at mine
      exact (same v started mine.1 mine.2).1
  have once := (ready.tick_creates (v := ⟨id, object, slot, none⟩) delta still create).1
  have fewer := (List.filter_sublist (p := fun v => v.actor == id && v.slot == slot)
    (l := (w.tick delta).world.starts)).count_le (⟨id, object, slot, none⟩ : Invocation)
  rw [alike, List.count_replicate_self] at fewer
  exact Nat.le_trans fewer once

/-- What is not fresh has no Create event on a tick. -/
private theorem stale_unstarted {w : World τ} (ready : w.Ready) (delta : τ)
    (still : w.transition.isRunning = false) {id object slot : Nat}
    (own : ∀ j ∈ w.instances, j.id = id → j.object = object)
    (create : w.program.trigger? object slot = some .create)
    (stale : ∀ j ∈ w.instances, j.id = id → j.fresh = false) :
    ∀ v ∈ (w.tick delta).world.starts, v.actor = id → v.slot ≠ slot := by
  intro v started actor same
  obtain ⟨_, planned⟩ := (tick_starts_slot ready delta still own create).2 v started actor same
  obtain ⟨k, there, fresh, arranged⟩ := World.mem_createPlan.mp planned
  have mine := (World.invocations_own arranged).1
  rw [stale k (World.mem_live.mp there).1 (mine.symm.trans actor)] at fresh
  cases fresh

/-! ### the life of an instance -/

/-- How far an instance has come after some ticks: none of them has played events, or one has. -/
private inductive Stage (slots : List Nat) (id : Nat) (ticks : List (Game τ × Game τ)) (g : Game τ) : Prop
  | awaits : unfrozen ticks = [] → (∀ slot, startsOf ticks id slot = []) →
      (∀ j ∈ g.world.instances, j.id = id → j.fresh = true ∧ j.waits = []) → Stage slots id ticks g
  | begun : unfrozen ticks ≠ [] → (∀ slot ∈ slots, (startsOf ticks id slot).length ≤ 1) →
      (g.state.isLive = true → ∀ j ∈ g.world.instances, j.id = id → j.fresh = false) → Stage slots id ticks g

variable {slots : List Nat} {id : Nat} {ticks : List (Game τ × Game τ)}

private theorem Stage.stopped {g' : Game τ} (stage : Stage slots id ticks g) (same : g'.world = g.world.stop) :
    Stage slots id ticks g' := by
  cases stage with
  | awaits unplayed unstarted fresh =>
    refine .awaits unplayed unstarted fun j member mine => ?_
    rw [same] at member
    obtain ⟨k, before, rfl⟩ := List.mem_map.mp member
    exact ⟨(fresh k before mine).1, rfl⟩
  | begun played once _ =>
    refine .begun played once fun live => ?_
    rw [state, same] at live
    cases live

omit [Scalar τ] in
private theorem Stage.aside {g' : Game τ} {keys : Keyboard} {sounds : List String} (stage : Stage slots id ticks g)
    (same : g'.world = { g.world with keys := keys, sounds := sounds }) : Stage slots id ticks g' := by
  have instances : g'.world.instances = g.world.instances := by rw [same]
  have live : g'.state = g.state := by rw [state, same, state]
  cases stage with
  | awaits unplayed unstarted fresh => exact .awaits unplayed unstarted (instances ▸ fresh)
  | begun played once stale => exact .begun played once (instances ▸ live ▸ stale)

/-- A tick that begins while a transition runs starts nothing and changes no instance. -/
private theorem Stage.frozen (stage : Stage slots id ticks g) (plays : g.Plays delta)
    (given : id ≤ g.world.lastId) (running : g.world.transition.isRunning = true) :
    Stage slots id (ticks ++ [(g, (g.tick delta).1)]) (g.tick delta).1 := by
  -- a tick that begins with a transition is no unfrozen one, starts nothing, and keeps or removes instances
  have unfrozen' : unfrozen (ticks ++ [(g, (g.tick delta).1)]) = unfrozen ticks := by
    simp [unfrozen, running]
  have starts' (slot : Nat) : startsOf (ticks ++ [(g, (g.tick delta).1)]) id slot = startsOf ticks id slot := by
    simp [startsOf, plays.starts_running running]
  have kept : ∀ j ∈ (g.tick delta).1.world.instances, j.id = id →
      ∃ k ∈ g.world.instances, j = k ∨ j = { k with waits := [] } := by
    intro j member mine
    obtain ⟨k, there, same⟩ := plays.members member
    have mine' : k.id = j.id := by rcases same with rfl | rfl <;> rfl
    obtain ⟨last, inside, world, _⟩ := Moment.tick_passes g.world delta
    rcases (Moment.steps_renewed running inside).instances k (world ▸ there) with new | old
    · omega
    · exact ⟨k, old, same⟩
  cases stage with
  | awaits unplayed unstarted fresh =>
    refine .awaits (unfrozen'.trans unplayed) (fun slot => (starts' slot).trans (unstarted slot)) ?_
    intro j member mine
    obtain ⟨k, old, same⟩ := kept j member mine
    rcases same with rfl | rfl
    · exact fresh j old mine
    · exact ⟨(fresh k old mine).1, rfl⟩
  | begun played once stale =>
    refine .begun (by rwa [unfrozen']) (fun slot create => by rw [starts']; exact once slot create) fun _ => ?_
    intro j member mine
    obtain ⟨k, old, same⟩ := kept j member mine
    rcases same with rfl | rfl
    · exact stale plays.live j old mine
    · exact stale plays.live k old mine

/-- A tick that plays events handles what is fresh. -/
private theorem Stage.played (stage : Stage slots id ticks g) (plays : g.Plays delta) (ready : g.world.Ready)
    (given : id ≤ g.world.lastId) (still : g.world.transition.isRunning = false) {object : Nat}
    (own : ∀ j ∈ g.world.instances, j.id = id → j.object = object)
    (creates : ∀ slot ∈ slots, g.world.program.trigger? object slot = some .create) :
    Stage slots id (ticks ++ [(g, (g.tick delta).1)]) (g.tick delta).1 := by
  have starts' (slot : Nat) : startsOf (ticks ++ [(g, (g.tick delta).1)]) id slot = startsOf ticks id slot ++
      (g.world.tick delta).world.starts.filter fun v => v.actor == id && v.slot == slot := by
    simp [startsOf, plays.starts]
  refine .begun (by simp [unfrozen, still]) (fun slot create => ?_) fun live j member mine => ?_
  · rw [starts']
    cases stage with
    | awaits _ unstarted _ =>
      rw [unstarted slot]
      exact (tick_starts_slot ready delta still own (creates slot create)).1
    -- the instance is not fresh any more, so this tick starts no Create event of it
    | begun _ once stale =>
      have none : ((g.world.tick delta).world.starts.filter fun v => v.actor == id && v.slot == slot) = [] := by
        rw [List.filter_eq_nil_iff]
        intro v started mine
        simp only [Bool.and_eq_true, beq_iff_eq] at mine
        exact stale_unstarted ready delta still own (creates slot create) (stale plays.live) v started mine.1 mine.2
      rw [none, List.append_nil]
      exact once slot create
  · obtain ⟨k, there, same⟩ := plays.members member
    -- a tick of a live run that goes on has handled every instance that was there
    have handled := ready.tick_handled still (plays.finishes live) k there
    rcases same with rfl | rfl
    · exact handled (by omega)
    · exact handled (by dsimp only at mine; omega)

/-- A tick that starts a Create event of the instance is the first one that plays events for it. -/
private theorem Stage.first (stage : Stage slots id ticks g) (plays : g.Plays delta) (ready : g.world.Ready)
    {object : Nat} (own : ∀ j ∈ g.world.instances, j.id = id → j.object = object)
    (creates : ∀ slot ∈ slots, g.world.program.trigger? object slot = some .create) {v : Invocation}
    (started : v ∈ (g.tick delta).1.world.starts) (actor : v.actor = id) (create : v.slot ∈ slots) :
    g.world.transition.isRunning = false ∧ unfrozen ticks = [] := by
  by_cases running : g.world.transition.isRunning = true
  · rw [plays.starts_running running] at started
    cases started
  have still : g.world.transition.isRunning = false := by simpa using running
  refine ⟨still, ?_⟩
  cases stage with
  | awaits unplayed _ _ => exact unplayed
  | begun _ _ stale =>
    rw [plays.starts] at started
    exact absurd rfl (stale_unstarted ready delta still own (creates _ create) (stale plays.live) v started actor)

/-- On the first tick that plays events for the instance, its Create events are due. -/
private theorem Stage.creation (stage : Stage slots id ticks g) (delta : τ) (ready : g.world.Ready)
    (still : g.world.transition.isRunning = false) (unplayed : unfrozen ticks = []) {object slot : Nat}
    (own : ∀ j ∈ g.world.instances, j.id = id → j.object = object)
    (create : g.world.program.trigger? object slot = some .create)
    (present : id ∈ g.world.instances.map (·.id)) : g.world.Creation delta ⟨id, object, slot, none⟩ := by
  cases stage with
  | awaits _ _ fresh =>
    obtain ⟨j, member, mine⟩ := List.mem_map.mp present
    apply ready.tick_creation still
    · refine World.mem_createPlan.mpr ⟨j, World.mem_live.mpr ⟨member, ready.alive j member⟩,
        (fresh j member mine).1, World.mem_invocations.mpr ⟨slot, .create, ?_, ?_, rfl⟩⟩
      · rw [mine, own j member mine]
      · rw [own j member mine]
        exact create
    · exact fun k there same => (fresh k there same).2
  | begun played _ _ => exact absurd unplayed played

/-- A tick starts all Create events before anything else. -/
theorem Plays.createsFirst (plays : g.Plays delta) (coherent : g.world.Coherent) :
    CreatesFirst (g.tick delta).1.world := by
  have program : (g.tick delta).1.world.program = g.world.program := by
    obtain ⟨last, inside, world, _⟩ := Moment.tick_passes g.world delta
    rw [plays.tick, settle, ← (Moment.tick_sameGame inside).2.1, world]
    split <;> rfl
  by_cases running : g.world.transition.isRunning = true
  · exact ⟨[], [], plays.turns_running running, .nil, fun v taken => absurd taken List.not_mem_nil,
      fun v taken => absurd taken List.not_mem_nil⟩
  · obtain ⟨created, rest, split, listed, others⟩ :=
      World.tick_created delta coherent (by simpa using running)
    refine ⟨created, rest, plays.turns.trans split, (World.createPlan_ascending coherent.ids).sublist listed, ?_, ?_⟩
    · rw [program]
      exact fun v taken => World.createPlan_creates (listed.subset taken)
    · rw [program]
      exact others

/-! ### whole runs -/

private theorem later_object {i : Instance τ} {born : Game τ} (coherent : born.world.Coherent)
    (member : i ∈ born.world.instances) {later : List (HostCall τ)} (stay : ∀ c ∈ later, c.staysInRun = true) :
    ∀ j ∈ (born.after later).world.instances, j.id = i.id → j.object = i.object := by
  intro j there mine
  obtain ⟨_, _, before⟩ := after_carries coherent stay
  obtain ⟨k, old, persists⟩ := before j there (mine ▸ (coherent.instances i member).given)
  have same : k = i := List.inj_on_of_nodup_map coherent.ids old member (persists.id.symm.trans mine)
  rw [persists.object, same]

section

variable [Timed τ] {settings : Settings}

private theorem ready_after {later : List (HostCall τ)}
    (plays : (((new settings : Game τ).after calls).after later).Plays delta) :
    (((new settings : Game τ).after calls).after later).world.Ready := by
  rw [← after_append] at plays ⊢
  exact plays.ready

/-- Along the calls of a run an instance is waiting for its first tick of events, or has had it. -/
private theorem stage_after {i : Instance τ} (member : i ∈ ((new settings : Game τ).after calls).world.instances)
    (spawned : ((new settings : Game τ).after calls).Spawned i.id) {later : List (HostCall τ)}
    (stay : ∀ c ∈ later, c.staysInRun = true) :
    let born : Game τ := (new settings).after calls
    Stage (born.world.slots i.object (· == .create)) i.id (born.ticks later) (born.after later) := by
  intro born
  have coherent : born.world.Coherent := after_coherent settings calls
  have given : i.id ≤ born.world.lastId := (coherent.instances i member).given
  -- by induction on the calls, along which only a tick that is not frozen moves the stage
  apply along_calls (g := born) (P := fun later =>
    Stage (born.world.slots i.object (· == .create)) i.id (born.ticks later) (born.after later)) _ _ _ _ stay
  · exact .awaits rfl (fun _ => rfl) spawned.new
  · intro earlier delta stay plays stage
    obtain ⟨program, more, _⟩ := after_carries coherent stay
    have ready := ready_after plays
    rw [ticks_tick plays, after_append]
    by_cases running : (born.after earlier).world.transition.isRunning = true
    · exact stage.frozen plays (Nat.le_trans given more) running
    · refine stage.played plays ready (Nat.le_trans given more) (by simpa using running)
        (later_object coherent member stay) fun slot create => ?_
      obtain ⟨trigger, found, isCreate⟩ := World.mem_slots.mp create
      cases beq_iff_eq.mp isCreate
      rw [program]
      exact found
  · intro earlier c still same stage
    rw [ticks_still still]
    exact stage.stopped same
  · intro earlier c keys sounds still same stage
    rw [ticks_still still]
    exact stage.aside same

/-- On an instance that is gone nothing is started. -/
private theorem gone_unstarted {id : Nat} (slot : Nat) (later : List (HostCall τ)) {further : List (HostCall τ)}
    (given : id ≤ (((new settings : Game τ).after calls).after later).world.lastId)
    (absent : id ∉ (((new settings : Game τ).after calls).after later).world.instances.map (·.id))
    (stay : ∀ c ∈ further, c.staysInRun = true) :
    startsOf ((((new settings : Game τ).after calls).after later).ticks further) id slot = [] := by
  rw [← after_append] at given absent ⊢
  refine List.flatMap_eq_nil_iff.mpr ?_
  rintro ⟨before, after⟩ listed
  obtain ⟨earlier, delta, rest, rfl, rfl, plays, rfl⟩ := mem_ticks listed
  rw [List.filter_eq_nil_iff]
  intro v started mine
  simp only [Bool.and_eq_true, beq_iff_eq] at mine
  rw [plays.starts] at started
  -- whoever acts was there before the tick, and so from the beginning
  obtain ⟨j, member, same, _⟩ := (ready_after plays).tick_has started
  obtain ⟨_, _, before⟩ := after_carries (after_coherent settings (calls ++ later))
    fun c listed => stay c (List.mem_append_left _ listed)
  obtain ⟨k, old, persists⟩ := before j member (by rw [same, mine.1]; exact given)
  exact absent (List.mem_map.mpr ⟨k, old, persists.id.symm.trans (same.trans mine.1)⟩)

end

/-- Create runs exactly once. A call of any run starts nothing on an instance that it has spawned, and if this
instance is gone when the call is over, nothing is ever started on it. Otherwise, whatever is called then in the
same run, each Create slot of the instance is started at most once, and only on the first tick that begins
without a transition. On this tick every Create slot of the instance is started exactly once, unless the tick is
cut short in the create phase or the instance has destroyed itself earlier in this phase. On every tick the
Create events come first, in the order of instances and slots. If the instance is removed before the first tick
that begins without a transition, no Create slot of it is ever started. -/
theorem create_runs_once (settings : Settings) (calls : List (HostCall Float)) (c : HostCall Float) :
    let before : Game Float := (new settings).after calls
    let born := (before.call c).1
    (∀ id ≤ born.world.lastId, (c.staysInRun = true → before.world.lastId < id) →
      (∀ v ∈ born.world.starts, v.actor ≠ id) ∧
      (id ∉ born.world.instances.map (·.id) → ∀ later : List (HostCall Float),
        (∀ c ∈ later, c.staysInRun = true) → ∀ slot, startsOf (born.ticks later) id slot = [])) ∧
    ∀ i ∈ born.world.instances, (c.staysInRun = true → before.world.lastId < i.id) →
      ∀ later : List (HostCall Float), (∀ c ∈ later, c.staysInRun = true) →
        let g := born.after later
        let ticks := born.ticks later
        let slots := born.world.slots i.object (· == .create)
        (∀ slot ∈ slots, (startsOf ticks i.id slot).length ≤ 1) ∧
        (unfrozen ticks = [] → i.id ∉ g.world.instances.map (·.id) →
          ∀ further : List (HostCall Float), (∀ c ∈ further, c.staysInRun = true) →
            ∀ slot ∈ slots, startsOf (born.ticks (later ++ further)) i.id slot = []) ∧
        ∀ delta, g.Plays delta →
          CreatesFirst (g.tick delta).1.world ∧
          (∀ v ∈ (g.tick delta).1.world.starts, v.actor = i.id → v.slot ∈ slots →
            g.world.transition.isRunning = false ∧ unfrozen ticks = []) ∧
          (g.world.transition.isRunning = false → unfrozen ticks = [] → i.id ∈ g.world.instances.map (·.id) →
            ∀ slot ∈ slots, g.world.Creation delta ⟨i.id, i.object, slot, none⟩) := by
  intro before born
  have spawned {id : Nat} (given : id ≤ born.world.lastId)
      (fresh : c.staysInRun = true → before.world.lastId < id) : born.Spawned id :=
    call_spawned settings calls c given fresh
  have history : born = (new settings).after (calls ++ [c]) := (after_append (new settings) calls [c]).symm
  clear_value born
  subst history
  have coherent : ((new settings : Game Float).after (calls ++ [c])).world.Coherent := after_coherent ..
  refine ⟨fun id given fresh => ⟨(spawned given fresh).unstarted, fun gone later stay slot => ?_⟩, ?_⟩
  -- an id that is not among the instances is not given out again
  · exact gone_unstarted slot [] given gone stay
  intro i member fresh later stay g ticks slots
  have given := (coherent.instances i member).given
  have stage := stage_after member (spawned given fresh) stay
  have own := later_object coherent member stay
  obtain ⟨program, more, _⟩ := after_carries coherent stay
  have creates : ∀ slot ∈ slots, g.world.program.trigger? i.object slot = some .create := by
    intro slot listed
    obtain ⟨trigger, found, isCreate⟩ := World.mem_slots.mp listed
    cases beq_iff_eq.mp isCreate
    exact program ▸ found
  refine ⟨fun slot create => ?_, fun unplayed gone further stay' slot create => ?_, fun delta plays => ?_⟩
  · cases stage with
    | awaits _ unstarted _ => rw [unstarted slot]; exact Nat.zero_le _
    | begun _ once _ => exact once slot create
  · cases stage with
    | awaits _ unstarted _ =>
      rw [startsOf, ticks_append, List.flatMap_append]
      refine List.append_eq_nil_iff.mpr ⟨unstarted slot, ?_⟩
      exact gone_unstarted slot later (Nat.le_trans given more) gone stay'
    | begun played _ _ => exact absurd unplayed played
  · have ready := ready_after plays
    refine ⟨plays.createsFirst ready.coherent, fun v started actor create => ?_, fun still unplayed present => ?_⟩
    · exact stage.first plays ready own creates started actor create
    · exact fun slot create => stage.creation delta ready still unplayed own (creates slot create) present

/-- The hen lays an egg in its first step. The egg scores when it comes, waits for it to be warm, and moves. -/
def nest : Project where
  version := 1
  declarations := []
  objects := [
    ⟨"hen", "Hen", none, some 2, some 2, false, [],
      [⟨.step, .act (.spawnObject "egg" (.literal (.number 1)) (.literal (.number 1)) true)
        (.act (.wait (.literal (.number 1000))) .done)⟩]⟩,
    ⟨"egg", "Egg", none, some 1, some 1, false, [],
      [⟨.create, .act (.changeScore (.literal (.number 1))) .done⟩,
        ⟨.step, .act (.move (.literal (.number 1)) (.literal (.number 0))) .done⟩,
        ⟨.create, .act (.wait (.literal (.number 8))) .done⟩]⟩]
  rooms := [⟨"coop", "Coop", 10, 10, [⟨"straw", "hen", 0, 0, none⟩]⟩]
  sprites := []
  sounds := []

/-- The first tick lays the egg, with no event of its own. The second one starts both of its Create events, and
the third one none any more. -/
theorem create_runs_once_nest :
    let before : Game Float := (new .default).after [.start nest "coop"]
    let born := (before.call (.tick 16)).1
    let ticks := born.ticks [.tick 16, .tick 16]
    born.world.starts = [⟨1, 0, 0, none⟩] ∧ (born.tick 16).1.world.starts =
        [⟨2, 1, 0, none⟩, ⟨2, 1, 2, none⟩, ⟨2, 1, 1, none⟩] ∧
      ∃ i ∈ born.world.instances, before.world.lastId < i.id ∧ i.id = 2 ∧ i.object = 1 ∧
        born.world.slots i.object (· == .create) = [0, 2] ∧
        (startsOf ticks i.id 2).length ≤ 1 ∧ startsOf ticks 2 2 = [⟨2, 1, 2, none⟩] ∧
        born.Plays 16 ∧ CreatesFirst (born.tick 16).1.world ∧ born.world.Creation 16 ⟨i.id, i.object, 2, none⟩ := by
  have lays : (((new .default : Game Float).after [.start nest "coop"]).call (.tick 16)).1.world.starts =
      [⟨1, 0, 0, none⟩] := by decide +kernel
  have comes : ((((new .default : Game Float).after [.start nest "coop"]).call (.tick 16)).1.tick 16).1.world.starts =
      [⟨2, 1, 0, none⟩, ⟨2, 1, 2, none⟩, ⟨2, 1, 1, none⟩] := by decide +kernel
  have laid : ∃ i ∈ (((new .default : Game Float).after [.start nest "coop"]).call (.tick 16)).1.world.instances,
      ((new .default : Game Float).after [.start nest "coop"]).world.lastId < i.id ∧ i.id = 2 ∧ i.object = 1 ∧
      (((new .default : Game Float).after [.start nest "coop"]).call (.tick 16)).1.world.slots i.object
        (· == .create) = [0, 2] := by decide +kernel
  have single : startsOf ((((new .default : Game Float).after [.start nest "coop"]).call (.tick 16)).1.ticks
      [.tick 16, .tick 16]) 2 2 = [⟨2, 1, 2, none⟩] := by decide +kernel
  have plays : (((new .default : Game Float).after [.start nest "coop"]).call (.tick 16)).1.Plays 16 := by
    decide +kernel
  have stay : ∀ c ∈ [(.tick 16 : HostCall Float), .tick 16], c.staysInRun = true := by decide +kernel
  obtain ⟨i, member, fresh, id, object, slots⟩ := laid
  obtain ⟨_, life⟩ := create_runs_once .default [.start nest "coop"] (.tick 16)
  obtain ⟨most, _, _⟩ := life i member (fun _ => fresh) [.tick 16, .tick 16] stay
  -- after no call at all the game is still the one that has just been born
  obtain ⟨_, _, ticked⟩ := life i member (fun _ => fresh) [] nofun
  have unmoved (g : Game Float) : g.after [] = g := rfl
  simp only [unmoved] at ticked
  obtain ⟨order, _, first⟩ := ticked 16 plays
  have planned : 2 ∈ (((new .default : Game Float).after [.start nest "coop"]).call (.tick 16)).1.world.slots
      i.object (· == .create) := by
    rw [slots]
    decide
  exact ⟨lays, comes, i, member, fresh, id, object, slots, most 2 planned, single, plays, order,
    first (by decide +kernel) rfl (List.mem_map_of_mem member) 2 planned⟩

end

end Gameplay.Game
