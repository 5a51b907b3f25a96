import Gameplay.Proofs.Closing
import Gameplay.Proofs.Repeats
import Gameplay.Proofs.WaitTime

/-!
# The dispatch of a tick

A tick without a transition has the turns of Create events first, then for one instance after the other those
of its waits and its Step events. Then instances move. The turns of collisions and of custom events follow.

## Main result

`tick_dispatches_in_order`: the turns of every tick come in this order, each part strictly ascending, and
every encounter has exactly one turn.
-/

namespace Gameplay

variable {τ : Type} [Scalar τ]

namespace World

variable {w : World τ}

private theorem startAll_append (us vs : List Invocation) (w : World τ) :
    startAll (us ++ vs) w = (startAll us w).andThen (startAll vs) := by
  induction us generalizing w with
  | nil => rfl
  | cons u us ih =>
    simp only [List.cons_append, startAll]
    split
    · exact ih w
    · simp only [Played.andThen]
      split
      · exact ih _
      next early =>
        split
        next finished => exact absurd finished early
        · rfl

/-- What becomes of an invocation of the collision phase: the run ends before its turn, or it is barred at
its turn, or it is started at its turn. It is never started twice. -/
inductive TakesTurn (moved played : World τ) (v : Invocation) : Prop
  | missed {before after : List Invocation} : moved.collisions = before ++ v :: after →
      (startAll before moved).ending ≠ .finished → played.starts.count v = 0 → TakesTurn moved played v
  | barred {before after : List Invocation} : moved.collisions = before ++ v :: after →
      (startAll before moved).ending = .finished → (startAll before moved).world.bars v = true →
      played.starts.count v = 0 → TakesTurn moved played v
  | started {before after : List Invocation} : moved.collisions = before ++ v :: after →
      (startAll before moved).ending = .finished → (startAll before moved).world.bars v = false →
      played.starts.count v = 1 → TakesTurn moved played v

private theorem collisions_take (coherent : w.Coherent) {v : Invocation} (listed : v ∈ w.collisions)
    (unstarted : w.starts.count v = 0) {played : World τ}
    (same : played.starts.count v = w.collisionPhase.world.starts.count v) : TakesTurn w played v := by
  -- it is listed once, so only its own turn can start it
  obtain ⟨before, after, split⟩ := List.append_of_mem listed
  have distinct : w.collisions.Nodup := (nodup_of_ascending (collisions_ascending coherent)).of_map _
  rw [split, List.nodup_middle, List.nodup_cons, List.mem_append, not_or] at distinct
  obtain ⟨⟨notBefore, notAfter⟩, _⟩ := distinct
  have absent {us : List Invocation} (missing : v ∉ us) :
      (.start v : Turn τ) ∉ us.map Turn.start := by simpa using missing
  have first := startAll_adds before w
  have unstarted' := (first.unplanned (absent notBefore)).trans unstarted
  rw [collisionPhase, split, startAll_append] at same
  unfold Played.andThen at same
  split at same
  next finished =>
    generalize turn : (startAll before w).world = w' at *
    simp only [startAll] at same
    split at same
    next barred =>
      refine .barred split finished (turn ▸ barred) (same.trans ?_)
      exact ((startAll_adds after w').unplanned (absent notAfter)).trans unstarted'
    next free =>
      refine .started split finished (by simpa [turn] using free) (same.trans ?_)
      -- the program has not changed, so there still is an event to start
      cases collisions_fit listed with
      | start _ found =>
        have program : w'.program = w.program := turn ▸ first.program
        rw [← program] at found
        have once : (w'.start v).world.starts.count v = 1 := by
          simp only [start, found, starts, proceed_turns, turns_note, List.filterMap_append,
            List.count_append]
          rw [starts] at unstarted'
          rw [unstarted']
          simp [Happening.turn?, Turn.starts?]
        unfold Played.andThen
        split
        · exact ((startAll_adds after _).unplanned (absent notAfter)).trans once
        · exact once
  next early => exact .missed split early (same.trans unstarted')

/-- The parts of the turns of a tick. Instances have moved between the steps and the collisions. -/
structure InOrder (moved : World τ) (created : List Invocation) (steps : List (Turn τ))
    (collided customs : List Invocation) : Prop where
  creates : ∀ v ∈ created, v.partner = none ∧ moved.program.trigger? v.object v.slot = some .create
  createOrder : created.Pairwise (·.place < ·.place)
  ofStep : ∀ t ∈ steps, t.OfStep moved.program
  stepOrder : steps.Pairwise (·.place < ·.place)
  encounters : ∀ v ∈ collided, ∃ i j slot, moved.Meets i j slot ∧ v = ⟨i.id, i.object, slot, some j.id⟩
  collisionOrder : collided.Pairwise (·.place < ·.place)
  customs : ∀ v ∈ customs, v.partner = none ∧
    ∃ name source, moved.program.trigger? v.object v.slot = some (.custom name source)

private theorem eventPhases_moved (finished : (w.createPhase.andThen stepPhase).ending = .finished) :
    w.eventPhases =
      (w.createPhase.andThen stepPhase).world.applyVelocities.collisionPhase.andThen customPhase := by
  rw [eventPhases]
  generalize w.createPhase.andThen stepPhase = stepped at finished
  obtain ⟨w', ending⟩ := stepped
  cases finished
  rfl

private theorem eventPhases_early (early : (w.createPhase.andThen stepPhase).ending ≠ .finished) :
    w.eventPhases = w.createPhase.andThen stepPhase := by
  rw [eventPhases]
  generalize w.createPhase.andThen stepPhase = stepped at early
  obtain ⟨w', ending⟩ := stepped
  cases ending with
  | finished => exact absurd rfl early
  | halted | failed cause => rfl

private theorem moved_coherent
    (coherent : Moment.Coherent ⟨w, .create, none, [], w.live.filter (·.fresh), none⟩)
    (finished : (w.createPhase.andThen stepPhase).ending = .finished) :
    (w.createPhase.andThen stepPhase).world.applyVelocities.Coherent := by
  have steps := (Moment.stepped_reaches w).goes finished
  have coherent' := steps.invariant coherent fun moved coherent => coherent.moved moved
  exact applyVelocities_coherent coherent'.world

private theorem collisionPhase_adds (w : World τ) : Adds w w.collisionPhase (w.collisions.map .start) :=
  startAll_adds w.collisions w

omit [Scalar τ] in
private theorem started_of_sublist {played : List (Turn τ)} {plan : List Invocation}
    (listed : played.Sublist (plan.map .start)) :
    ∃ vs : List Invocation, played = vs.map .start ∧ vs.Sublist plan := by
  obtain ⟨vs, listed, same⟩ := List.sublist_map_iff.mp listed
  exact ⟨vs, same, listed⟩

/-- The turns of a tick are those of the phases, one phase after the other, each in its order. -/
private theorem events_in_order
    (coherent : Moment.Coherent ⟨w, .create, none, [], w.live.filter (·.fresh), none⟩)
    (first : w.turns = []) :
    let stepped := w.createPhase.andThen stepPhase
    ∃ (created : List Invocation) (steps : List (Turn τ)) (collided customs : List Invocation),
      stepped.world.turns = created.map .start ++ steps ∧
      w.eventPhases.world.turns = stepped.world.turns ++ collided.map .start ++ customs.map .start ∧
      (stepped.ending ≠ .finished → collided = [] ∧ customs = []) ∧
      stepped.world.applyVelocities.InOrder created steps collided customs := by
  intro stepped
  obtain ⟨plan, adds, stepOrder, ofStep⟩ := stepped_adds coherent
  have createOrder := createPlan_ascending coherent.world.ids
  obtain ⟨program, played, listed, turns⟩ := adds
  obtain ⟨played, steps, rfl, fromCreates, fromPlan⟩ := List.sublist_append_iff.mp listed
  obtain ⟨created, rfl, created_of⟩ := started_of_sublist fromCreates
  rw [first, List.nil_append] at turns
  have creates' : ∀ v ∈ created, v.partner = none ∧
      stepped.world.applyVelocities.program.trigger? v.object v.slot = some .create :=
    fun v started => program ▸ createPlan_creates (created_of.subset started)
  have ofStep' : ∀ t ∈ steps, t.OfStep stepped.world.applyVelocities.program :=
    fun t taken => program ▸ ofStep t (fromPlan.subset taken)
  -- the collisions are those of the instances where the step phase has left them
  by_cases finished : stepped.ending = .finished
  · have moved := moved_coherent coherent finished
    generalize played : stepped.world.applyVelocities = w' at moved creates' ofStep' ⊢
    have same : w'.turns = stepped.world.turns := by
      rw [← played]
      rfl
    have collisions := collisionPhase_adds w'
    obtain ⟨plan', addsLater, areCustoms⟩ :=
      customRounds_adds w'.collisionPhase.world.settings.maxRounds.toNat w'.collisionPhase.world
    have later : Adds w' (w'.collisionPhase.andThen customPhase) (_ ++ plan'.map .start) :=
      collisions.andThen fun _ => addsLater
    obtain ⟨_, taken, listed, turnsLater⟩ := later
    obtain ⟨_, _, rfl, fromCollisions, fromCustoms⟩ := List.sublist_append_iff.mp listed
    obtain ⟨collided, rfl, collided_of⟩ := started_of_sublist fromCollisions
    obtain ⟨customs, rfl, customs_of⟩ := started_of_sublist fromCustoms
    refine ⟨created, steps, collided, customs, turns, ?_, fun early => absurd finished early, ?_⟩
    · rw [eventPhases_moved finished, played, turnsLater, same, List.append_assoc]
    · refine ⟨creates', createOrder.sublist created_of, ofStep', stepOrder.sublist fromPlan,
        fun v started => ?_, (collisions_ascending moved).sublist collided_of, fun v started => ?_⟩
      · exact (mem_collisions moved).mp (collided_of.subset started)
      · rw [← collisions.program]
        exact areCustoms v (customs_of.subset started)
  · refine ⟨created, steps, [], [], turns, ?_, fun _ => ⟨rfl, rfl⟩, ?_⟩
    · rw [eventPhases_early finished]
      simp [stepped]
    · exact ⟨creates', createOrder.sublist created_of, ofStep', stepOrder.sublist fromPlan, nofun, .nil,
        nofun⟩

/-- The events of Create come first, and nothing after them starts one. -/
private theorem eventPhases_adds
    (coherent : Moment.Coherent ⟨w, .create, none, [], w.live.filter (·.fresh), none⟩) :
    ∃ later : List (Turn τ), Adds w w.eventPhases (w.createPlan.map .start ++ later) ∧
      ∀ v, .start v ∈ later → w.program.trigger? v.object v.slot ≠ some .create := by
  obtain ⟨steps, adds, _, ofStep⟩ := stepped_adds coherent
  have others : ∀ v, .start v ∈ steps → w.program.trigger? v.object v.slot ≠ some .create := by
    intro v planned create
    cases ofStep _ planned with
    | start _ step => cases create.symm.trans step
  -- if the events are cut short there are no collisions and no custom events
  by_cases finished : (w.createPhase.andThen stepPhase).ending = .finished
  · have moved := moved_coherent coherent finished
    obtain ⟨program, played, listed, turns⟩ := adds
    have same : (w.createPhase.andThen stepPhase).world.applyVelocities.turns = w.turns ++ played := turns
    have program' : (w.createPhase.andThen stepPhase).world.applyVelocities.program = w.program := program
    rw [eventPhases_moved finished]
    generalize (w.createPhase.andThen stepPhase).world.applyVelocities = w' at moved same program'
    have collisions := collisionPhase_adds w'
    obtain ⟨customs, addsLater, areCustoms⟩ :=
      customRounds_adds w'.collisionPhase.world.settings.maxRounds.toNat w'.collisionPhase.world
    have later : Adds w' (w'.collisionPhase.andThen customPhase) (w'.collisions.map .start ++ customs.map .start) :=
      collisions.andThen fun _ => addsLater
    refine ⟨steps ++ (w'.collisions.map .start ++ customs.map .start), ?_, fun v planned create => ?_⟩
    · obtain ⟨program'', played', listed', turns'⟩ := later
      refine ⟨program''.trans program', played ++ played', ?_, ?_⟩
      · rw [← List.append_assoc]
        exact listed.append listed'
      · rw [turns', same, List.append_assoc]
    · rcases List.mem_append.mp planned with stepped | rest
      · exact others v stepped create
      rcases List.mem_append.mp rest with collides | custom
      · obtain ⟨u, arranged, start⟩ := List.mem_map.mp collides
        cases start
        obtain ⟨i, j, slot, meets, rfl⟩ := (mem_collisions moved).mp arranged
        obtain ⟨o, _, collision⟩ := meets.target
        rw [program', create] at collision
        cases collision
      · obtain ⟨u, arranged, start⟩ := List.mem_map.mp custom
        cases start
        obtain ⟨_, name, source, custom⟩ := areCustoms _ arranged
        rw [collisions.program, program', create] at custom
        cases custom
  · rw [eventPhases_early finished]
    exact ⟨steps, adds, others⟩

/-- Only the collision phase starts an invocation that meets an instance. -/
private theorem encounters_take_turns
    (coherent : Moment.Coherent ⟨w, .create, none, [], w.live.filter (·.fresh), none⟩)
    (first : w.turns = []) (finished : (w.createPhase.andThen stepPhase).ending = .finished)
    {v : Invocation} (listed : v ∈ (w.createPhase.andThen stepPhase).world.applyVelocities.collisions) :
    (w.createPhase.andThen stepPhase).world.applyVelocities.TakesTurn w.eventPhases.world v := by
  have moved := moved_coherent coherent finished
  obtain ⟨plan, adds, _, ofStep⟩ := stepped_adds coherent
  obtain ⟨i, j, slot, _, rfl⟩ := (mem_collisions moved).mp listed
  refine collisions_take moved listed ?_ ?_
  · -- neither Create nor Step events meet anything
    have unplanned : .start ⟨i.id, i.object, slot, some j.id⟩ ∉ w.createPlan.map Turn.start ++ plan := by
      intro planned
      rcases List.mem_append.mp planned with created | stepped
      · obtain ⟨v, started, same⟩ := List.mem_map.mp created
        cases same
        cases (createPlan_creates started).1
      · cases ofStep _ stepped with
        | start alone _ => cases alone
    have unstarted : w.starts = [] := by rw [starts, first, List.filterMap_nil]
    exact (adds.unplanned unplanned).trans (unstarted ▸ List.count_nil)
  · rw [eventPhases_moved finished]
    generalize (w.createPhase.andThen stepPhase).world.applyVelocities.collisionPhase = p
    obtain ⟨customs, later, areCustoms⟩ := customRounds_adds p.world.settings.maxRounds.toNat p.world
    have unplanned : .start ⟨i.id, i.object, slot, some j.id⟩ ∉ customs.map (Turn.start (τ := τ)) := by
      intro planned
      obtain ⟨v, started, same⟩ := List.mem_map.mp planned
      cases same
      cases (areCustoms _ started).1
    unfold Played.andThen
    split
    · exact later.unplanned unplanned
    · rfl

/-- The end of a tick does nothing that is noted. -/
theorem closeTick_journal (w : World τ) :
    w.closeTick.world.journal = w.journal ∧ w.closeTick.world.program = w.program := by
  have arrived := (commit_sameRun w).trans (stepTransition_sameRun w.commit)
  refine Played.andThen_keeps (P := fun w' => w'.journal = w.journal ∧ w'.program = w.program) ?_ fun _ same => same
  apply Played.andThen_keeps (P := fun w' => w'.journal = w.journal ∧ w'.program = w.program)
  · exact ⟨arrived.journal, arrived.program⟩
  · rintro w' ⟨journal, program⟩
    have followed := followRequest_sameRun w'
    exact ⟨followed.journal.trans journal, followed.program.trans program⟩

private theorem closeTick_turns (w : World τ) : w.closeTick.world.turns = w.turns := by
  rw [turns, happenings, (closeTick_journal w).1, turns, happenings]

private theorem tick_turns {delta : τ} (still : w.transition.isRunning = false) :
    (w.tick delta).world.turns = (w.opened delta).eventPhases.world.turns := by
  have events : w.events delta = (w.opened delta).eventPhases := by
    simp only [events, still, Bool.false_eq_true, if_false]
  rw [tick_eq, events]
  unfold Played.andThen
  split
  · exact closeTick_turns _
  · rfl

/-- The turns of a tick are those of Create events, and then others. -/
theorem tick_created (delta : τ) (coherent : w.Coherent) (still : w.transition.isRunning = false) :
    ∃ (created : List Invocation) (rest : List (Turn τ)),
      (w.tick delta).world.turns = created.map .start ++ rest ∧ created.Sublist w.createPlan ∧
      ∀ v, .start v ∈ rest → w.program.trigger? v.object v.slot ≠ some .create := by
  have begins : Moment.Coherent
      ⟨w.opened delta, .create, none, [], (w.opened delta).live.filter (·.fresh), none⟩ := by
    have begins := Moment.begin_coherent coherent delta
    rw [begin_still still] at begins
    exact begins
  obtain ⟨later, ⟨_, played, listed, turns⟩, others⟩ := eventPhases_adds begins
  obtain ⟨_, rest, rfl, fromCreates, fromLater⟩ := List.sublist_append_iff.mp listed
  obtain ⟨created, rfl, created_of⟩ := started_of_sublist fromCreates
  refine ⟨created, rest, ?_, created_of, fun v started => others v (fromLater.subset started)⟩
  rw [tick_turns still, turns]
  exact List.nil_append _

end World

namespace Game

/-- Let any run be live and no transition be under way. The turns of a tick are those of Create events in
ascending order of instance and slot; then, one instance after the other, those of its waits that are due and
then those of its Step events, each in ascending order of slots; then, after movement, those of collisions in
ascending order of the instance, the other and the slot; then those of custom events. So none occurs twice,
and no slot is resumed that was started before in the tick. Every encounter of the moved instances has one
turn in the collision phase. It starts the invocation once, unless the run ends before, or one of the two has
been destroyed or the slot is suspended at this turn; then the invocation is not started at all. -/
theorem tick_dispatches_in_order (settings : Settings) (calls : List (HostCall τ)) (delta : τ) :
    let g : Game τ := (new settings).after calls
    let stepped := (g.world.opened delta).createPhase.andThen World.stepPhase
    let moved := stepped.world.applyVelocities
    let ticked := (g.tick delta).1.world
    g.Plays delta → g.world.transition.isRunning = false →
      (∃ (created : List Invocation) (steps : List (Turn τ)) (collided customs : List Invocation),
        stepped.world.turns = created.map .start ++ steps ∧
        ticked.turns = stepped.world.turns ++ collided.map .start ++ customs.map .start ∧
        (stepped.ending ≠ .finished → collided = [] ∧ customs = []) ∧
        moved.InOrder created steps collided customs ∧
        (created.map Invocation.place).Nodup ∧ (steps.map Turn.place).Nodup ∧
        (collided.map Invocation.place).Nodup) ∧
      ticked.turns.Pairwise Turn.Unrepeated ∧
      (stepped.ending = .finished → ∀ i j slot, moved.Meets i j slot →
        moved.TakesTurn ticked ⟨i.id, i.object, slot, some j.id⟩) := by
  intro g stepped moved ticked plays still
  have world : g.world.Coherent := after_coherent settings calls
  have coherent := Moment.begin_coherent world delta
  rw [World.begin_still still] at coherent
  have turns : ticked.turns = (g.world.tick delta).world.turns := by
    rw [World.turns, plays.leaves.1, World.turns]
  have events := turns.trans (World.tick_turns still)
  refine ⟨?_, ?_, fun finished i j slot meets => ?_⟩
  · obtain ⟨created, steps, collided, customs, first, rest, early, order⟩ :=
      World.events_in_order coherent rfl
    exact ⟨created, steps, collided, customs, first, events.trans rest, early, order,
      nodup_of_ascending order.createOrder, nodup_of_ascending order.stepOrder,
      nodup_of_ascending order.collisionOrder⟩
  · -- what holds at every point inside the tick holds at its end
    obtain ⟨last, inside, same, _⟩ := Moment.tick_passes g.world delta
    rw [turns, ← same]
    exact Moment.turns_unrepeated world inside
  · have listed := (World.mem_collisions (World.moved_coherent coherent finished)).mpr ⟨i, j, slot, meets, rfl⟩
    have takes := World.encounters_take_turns coherent rfl finished listed
    have starts : ticked.starts = (g.world.opened delta).eventPhases.world.starts := by
      rw [World.starts, events, World.starts]
    cases takes with
    | missed split early none => exact .missed split early (starts ▸ none)
    | barred split finished barred none => exact .barred split finished barred (starts ▸ none)
    | started split finished free once => exact .started split finished free (starts ▸ once)

/-- Two cats on one mat, which scores when it is laid out, at every step, and for each other. -/
def mat : Project where
  version := 1
  declarations := []
  objects := [⟨"cat", "Cat", none, some 2, some 2, true, [],
    [⟨.create, .act (.changeScore (.literal (.number 1))) .done⟩,
      ⟨.step, .act (.wait (.literal (.number 10))) (.act (.changeScore (.literal (.number 1))) .done)⟩,
      ⟨.collision "cat", .act (.changeScore (.literal (.number 1))) .done⟩]⟩]
  rooms := [⟨"room", "Room", 10, 10, [⟨"left", "cat", 0, 0, none⟩, ⟨"right", "cat", 1, 0, none⟩]⟩]
  sprites := []
  sounds := []

/-- In the first tick both cats are created, take a step and meet each other. In the second one their waits
end, and they take another step. -/
theorem tick_dispatches_in_order_mat :
    let first : Game Float := (new .default).after [.start mat "room"]
    let second : Game Float := (new .default).after [.start mat "room", .tick 16]
    first.Plays 16 ∧ second.Plays 16 ∧
      (first.tick 16).1.world.starts =
        [⟨1, 0, 0, none⟩, ⟨2, 0, 0, none⟩, ⟨1, 0, 1, none⟩, ⟨2, 0, 1, none⟩, ⟨1, 0, 2, some 2⟩,
          ⟨2, 0, 2, some 1⟩] ∧
      (second.tick 16).1.world.turns.map Turn.place =
        [[1, 0, 1], [1, 1, 1], [2, 0, 1], [2, 1, 1], [1, 1, 2], [2, 1, 2]] ∧
      (first.tick 16).1.world.turns.Pairwise Turn.Unrepeated ∧
      (second.tick 16).1.world.turns.Pairwise Turn.Unrepeated := by
  have plays : ((new .default : Game Float).after [.start mat "room"]).Plays 16 := by decide +kernel
  have plays' : ((new .default : Game Float).after [.start mat "room", .tick 16]).Plays 16 := by
    decide +kernel
  have starts : (((new .default : Game Float).after [.start mat "room"]).tick 16).1.world.starts =
      [⟨1, 0, 0, none⟩, ⟨2, 0, 0, none⟩, ⟨1, 0, 1, none⟩, ⟨2, 0, 1, none⟩, ⟨1, 0, 2, some 2⟩,
        ⟨2, 0, 2, some 1⟩] := by decide +kernel
  have places : (((new .default : Game Float).after [.start mat "room", .tick 16]).tick 16).1.world.turns.map
      Turn.place = [[1, 0, 1], [1, 1, 1], [2, 0, 1], [2, 1, 1], [1, 1, 2], [2, 1, 2]] := by decide +kernel
  obtain ⟨_, unrepeated, _⟩ :=
    tick_dispatches_in_order .default [.start mat "room"] 16 plays (by decide +kernel)
  obtain ⟨_, unrepeated', _⟩ :=
    tick_dispatches_in_order .default [.start mat "room", .tick 16] 16 plays' (by decide +kernel)
  exact ⟨plays, plays', starts, places, unrepeated, unrepeated'⟩

end Game

end Gameplay
