import Gameplay.Proofs.Allocation
import Gameplay.Proofs.Dispatch

/-!
# Fresh instances

An instance is fresh from its creation until the create phase comes to it. The create phase takes the fresh
instances that are there when the tick begins; whatever is created meanwhile has to wait for a later tick.

## Main results

`Ready.tick_new`: what a tick creates is new when it is over, and nothing has been started on it.
`Ready.tick_handled`: after a tick that has come to its end nothing else is fresh.
`Ready.tick_creation`: what becomes of the Create events of a fresh instance.
-/

namespace Gameplay

variable {τ : Type} [Scalar τ]

/-- A world in which a tick can begin: no instance is marked, and nothing but custom events is pending. -/
structure World.Ready (w : World τ) : Prop where
  coherent : w.Coherent
  alive : ∀ i ∈ w.instances, i.destroyed = false
  clear : w.pending.Clear

omit [Scalar τ] in
theorem World.Has.object {w : World τ} {id object : Nat} (there : w.Has id object) (coherent : w.Coherent)
    {i : Instance τ} (member : i ∈ w.instances) (mine : i.id = id) : i.object = object := by
  obtain ⟨j, present, same, rfl⟩ := there
  rw [List.inj_on_of_nodup_map coherent.ids member present (mine.trans same.symm)]

namespace Moment

variable {w : World τ} {delta : τ} {m next : Moment τ} {v : Invocation}

/-! ### what a tick creates -/

/-- After the events of a tick nothing is walked and no turn is listed. -/
theorem steps_busy (inside : Steps (begin w delta) m) (late : m.phase.isEarly = false) :
    m.walking = none ∧ m.agenda = [] := by
  revert late
  refine inside.invariant (P := fun m => m.phase.isEarly = false → m.walking = none ∧ m.agenda = []) ?_ ?_
  · exact fun _ => ⟨begin_walking w delta, begin_agenda w delta⟩
  · intro m next moved idle late
    -- a moment with a walk or with a turn is early, and its phase stays
    cases moved with
    | walk _ | park _ | halt _ | fail _ | finish _ => cases (idle late).1
    | pass _ | drop _ | start _ _ | resume _ _ => cases (idle late).2
    | create | created | step _ | stepped | collided | handle _ _ _ | handled _ => cases late
    | commit | transition _ | transitionFailed _ | request _ | requestFailed _ | close => exact ⟨rfl, rfl⟩

omit [Scalar τ] in
private theorem creates_new {c c' : World τ} {created : List (Instance τ)} (creates : c.Creates created c')
    (program : c.program = w.program)
    (new : ∀ j ∈ c.instances, w.lastId < j.id → j.New w.program) :
    ∀ j ∈ c'.instances, w.lastId < j.id → j.New w.program := by
  intro j member later
  rcases List.mem_append.mp (creates.instances j member) with old | created
  · exact new j old later
  · exact program ▸ creates.new j created

/-- Whatever a tick creates has had no event by the end of the tick. -/
theorem steps_new (ready : w.Ready) (inside : Steps (begin w delta) m) :
    ∀ j ∈ m.world.instances, w.lastId < j.id → j.New w.program := by
  -- while the events are played nothing is created
  have none {m : Moment τ} (inside : Steps (begin w delta) m) (early : m.phase.isEarly = true) :
      ∀ j ∈ m.world.instances, w.lastId < j.id → j.New w.program := by
    intro j member later
    have ledger := World.steps_ledger ready.coherent ready.alive ready.clear inside early
    have given := ((steps_coherent ready.coherent inside).world.instances j member).given
    rw [ledger.lastId] at given
    omega
  induction inside with
  | refl => exact none .refl (begin_early w delta)
  | @tail m next inside stepped ih =>
    have inside' := inside.tail stepped
    have program := (tick_sameGame inside).2.1
    by_cases early : next.phase.isEarly = true
    · exact none inside' early
    have late : next.phase.isEarly = false := by simpa using early
    cases step_moved stepped with
    | walk _ | start _ _ | resume _ _ => cases (steps_busy inside' late).1
    | park _ | halt _ | fail _ | finish _ => cases (steps_busy inside late).1
    | pass _ | drop _ => cases (steps_busy inside late).2
    | create | created | step _ | stepped | collided | handle _ _ _ | handled _ => cases late
    | @commit c =>
      obtain ⟨created, creates⟩ := c.commit_creates
      exact creates_new creates program ih
    | @transition c | @transitionFailed c =>
      obtain ⟨created, creates⟩ := c.stepTransition_creates
      exact creates_new creates program ih
    | @request c | @requestFailed c =>
      obtain ⟨created, creates⟩ := c.followRequest_creates
      exact creates_new creates program ih
    | close => exact ih

/-- An invocation that a tick has started is one of an instance that was there before the tick. -/
theorem steps_has (ready : w.Ready) (inside : Steps (begin w delta) m) (started : .start v ∈ m.world.turns) :
    w.Has v.actor v.object := by
  obtain ⟨h, noted, turn⟩ := List.mem_filterMap.mp started
  obtain ⟨before, _, _, inside', _, _, _, notes⟩ := steps_noted inside (List.mem_reverse.mp noted)
  cases h with
  | started u =>
    cases turn
    cases notes with
    | started _ turn _ =>
      -- something is still listed, so no instance has come or gone yet
      have early : before.phase.isEarly = true := by
        by_contra late
        have none := (steps_busy inside' (by simpa using late)).2
        rw [turn] at none
        cases none
      have coherent := steps_coherent ready.coherent inside'
      cases coherent.turns _ (turn ▸ List.mem_cons_self) with
      | start there _ =>
        obtain ⟨j, member, mine, object⟩ := there
        have ledger := World.steps_ledger ready.coherent ready.alive ready.clear inside' early
        obtain ⟨i, first, persists⟩ := related_mem ledger.persist member
        exact ⟨i, first, persists.id.symm.trans mine, persists.object.symm.trans object⟩
  | resumed _ _ | performed _ _ | suspended _ _ | handled _ => cases turn

/-! ### what the create phase has handled -/

theorem steps_given (coherent : w.Coherent) (inside : Steps (begin w delta) m) :
    w.lastId ≤ m.world.lastId := by
  have given := inside.lastId (begin_coherent coherent delta)
  rw [begin_world] at given
  exact given

/-- What is fresh has been created in this tick, or the create phase has still to come to it. -/
theorem steps_fresh (ready : w.Ready) (still : w.transition.isRunning = false)
    (inside : Steps (begin w delta) m) : ∀ j ∈ m.world.instances, j.id ≤ w.lastId → j.fresh = true →
      m.phase = .create ∧ ∃ k ∈ m.ahead, k.id = j.id := by
  induction inside with
  | refl =>
    rw [World.begin_still still]
    refine fun j member _ fresh => ⟨rfl, j, ?_, rfl⟩
    exact List.mem_filter.mpr ⟨World.mem_live.mpr ⟨member, ready.alive j member⟩, fresh⟩
  | @tail m next inside stepped ih =>
    intro j member old isFresh
    have moved := step_moved stepped
    have given := Nat.le_trans old (steps_given ready.coherent inside)
    obtain ⟨i, before, follows⟩ := moved.before (steps_coherent ready.coherent inside) given member
    obtain ⟨phase, k, ahead, mine⟩ := ih i before (follows.id ▸ old) (follows.fresh isFresh)
    have mine' : k.id = j.id := mine.trans follows.id.symm
    cases moved with
    | create =>
      rcases List.mem_cons.mp ahead with rfl | later
      · -- the instance has its turn now, and is fresh no longer
        obtain ⟨i', _, rfl⟩ := List.mem_map.mp member
        split at isFresh
        · cases isFresh
        next other =>
          rw [if_neg other] at mine'
          exact absurd mine'.symm other
      · exact ⟨rfl, k, later, mine'⟩
    | created => cases ahead
    | walk _ | finish _ | park _ | halt _ | fail _ => exact ⟨phase, k, ahead, mine'⟩
    | pass _ | drop _ | start _ _ | resume _ _ => exact ⟨phase, k, ahead, mine'⟩
    | step _ | stepped | collided | handle _ _ _ | handled _ | commit | transition _ | transitionFailed _
    | request _ | requestFailed _ | close => cases phase

/-- A silent step removes instances, or adds some with new ids. -/
theorem Moved.renewed (moved : Moved m next) (silent : m.Silent) : m.world.Renewed next.world := by
  cases moved with
  | walk _ | finish _ | park _ | halt _ | fail _ => cases silent.idle
  | pass _ | drop _ | start _ _ | resume _ _ => cases silent.agenda
  | create | created | step _ | stepped | collided | handle _ _ _ | handled _ =>
    have phase := silent.phase
    simp at phase
  | commit => exact World.commit_renewed _
  | transition _ | transitionFailed _ => exact World.stepTransition_renewed _
  | request _ | requestFailed _ => exact World.followRequest_renewed _
  | close => exact ⟨Nat.le_refl _, fun _ member => .inr member⟩

/-- A tick that begins while a transition runs leaves every instance as it was, or removes it. -/
theorem steps_renewed (running : w.transition.isRunning = true) (inside : Steps (begin w delta) m) :
    w.Renewed m.world := by
  have both : m.Silent ∧ w.Renewed m.world := by
    refine inside.invariant (P := fun m => m.Silent ∧ w.Renewed m.world) ⟨steps_silent running .refl, ?_⟩ ?_
    · rw [begin_world]
      exact ⟨Nat.le_refl _, fun _ member => .inr member⟩
    · rintro m next moved ⟨silent, renewed⟩
      exact ⟨moved.silent silent, renewed.trans (moved.renewed silent)⟩
  exact both.2

/-! ### the create phase -/

/-- By a moment of the tick, an instance has destroyed itself in the create phase. -/
def Resigned (w : World τ) (delta : τ) (id : Nat) (m : Moment τ) : Prop :=
  ∃ v before after, Steps (begin w delta) before ∧ before.phase = .create ∧
    Destroys v id before after ∧ v.actor = id ∧ Steps after m

/-- A moment of the create phase. Whoever is walked or listed meets no other instance, so an instance is
destroyed by itself only, and its new waits are those of its Create events. -/
structure Creating (w : World τ) (delta : τ) (m : Moment τ) : Prop where
  alone : ∀ turn ∈ m.agenda, ∃ v, turn = .start v ∧ v.partner = none
  walking : ∀ walk, m.walking = some walk →
    walk.invocation.partner = none ∧ .start walk.invocation ∈ m.world.turns
  waits : ∀ j ∈ m.world.instances, ∀ x ∈ j.waits,
    (∃ i ∈ w.instances, i.id = j.id ∧ x ∈ i.waits) ∨ .start ⟨j.id, j.object, x.slot, none⟩ ∈ m.world.turns
  destroyed : ∀ j ∈ m.world.instances, j.destroyed = true → Resigned w delta j.id m

/-- An instance that has destroyed itself in the create phase has done so for the rest of the tick. -/
theorem Resigned.later {id : Nat} (resigned : Resigned w delta id m) (stepped : m.step = some next) :
    Resigned w delta id next := by
  obtain ⟨v, before, after, inside, phase, destroys, own, steps⟩ := resigned
  exact ⟨v, before, after, inside, phase, destroys, own, steps.tail stepped⟩

omit [Scalar τ] in
/-- An action without a partner is aimed at the instance that acts. -/
private theorem aims_alone {c : World τ} {action : Action} {id : Nat} (alone : v.partner = none)
    (aims : action.Aims c v id) : v.actor = id := by
  cases aims with
  | self => rfl
  | other met _ => cases alone.symm.trans met

/-- A step that marks no instance and adds no wait. -/
private theorem Creating.kept (creating : Creating w delta m) (stepped : m.step = some next)
    (alone : ∀ turn ∈ next.agenda, ∃ v, turn = .start v ∧ v.partner = none)
    (walking : ∀ walk, next.walking = some walk →
      walk.invocation.partner = none ∧ .start walk.invocation ∈ next.world.turns)
    (turns : ∃ played, next.world.turns = m.world.turns ++ played)
    (instances : ∀ j ∈ next.world.instances, ∃ i ∈ m.world.instances,
      j.id = i.id ∧ j.object = i.object ∧ j.waits = i.waits ∧ j.destroyed = i.destroyed) :
    Creating w delta next := by
  obtain ⟨played, grown⟩ := turns
  refine ⟨alone, walking, fun j member x held => ?_, fun j member marked => ?_⟩
  · obtain ⟨i, before, id, object, waits, _⟩ := instances j member
    rw [id, object, grown]
    exact (creating.waits i before x (waits ▸ held)).imp_right fun started => List.mem_append_left _ started
  · obtain ⟨i, before, id, _, _, same⟩ := instances j member
    rw [id]
    exact (creating.destroyed i before (same ▸ marked)).later stepped

private theorem Creating.strode (creating : Creating w delta m) (inside : Steps (begin w delta) m)
    (phase : m.phase = .create) (coherent : m.Coherent) (stepped : m.step = some next) {steps : Nat}
    {frames : List Frame} {stride : Stride τ} (walks : m.walking = some ⟨v, steps, frames⟩)
    (strode : World.Strode v m.world frames next.world stride) (agenda : next.agenda = m.agenda)
    (walking : ∀ walk, next.walking = some walk → walk.invocation = v) : Creating w delta next := by
  obtain ⟨alone, started⟩ := creating.walking _ walks
  obtain ⟨done, journal, deed⟩ := strode.deed (coherent.actor_present walks)
  obtain ⟨w₀, status, entries, change, same, _⟩ := strode.acted
  refine ⟨agenda ▸ creating.alone, fun walk now => ?_, fun j member x held => ?_, fun j member marked => ?_⟩
  · rw [walking walk now, strode.turns]
    exact ⟨alone, started⟩
  · rw [same] at member
    obtain ⟨i, before, acted⟩ := related_mem change.instances member
    rw [acted.id, acted.object, strode.turns]
    exact creating.waits i before x (acted.waits ▸ held)
  · obtain ⟨i, before, id, marks⟩ := related_mem deed.marks member
    rw [id]
    rcases marks.mp marked with earlier | ⟨action, did, aims⟩
    · exact (creating.destroyed i before earlier).later stepped
    · -- an invocation that meets nothing can be aimed at its own instance only
      cases did
      exact ⟨v, m, next, inside, phase, ⟨stepped, action, journal, aims⟩, aims_alone alone aims, .refl⟩

private theorem Creating.park {c c' : World τ} {steps : Nat} {frames left : List Frame} {duration : τ}
    {agenda : List (Turn τ)} {ahead : List (Instance τ)}
    (creating : Creating w delta ⟨c, .create, some ⟨v, steps, frames⟩, agenda, ahead, none⟩)
    (coherent : Coherent ⟨c, .create, some ⟨v, steps, frames⟩, agenda, ahead, none⟩)
    (stepped : step ⟨c, .create, some ⟨v, steps, frames⟩, agenda, ahead, none⟩ =
      some ⟨c'.park v duration left, .create, none, agenda, ahead, none⟩)
    (strode : World.Strode v c frames c' (.stop (.suspended duration left))) :
    Creating w delta ⟨c'.park v duration left, .create, none, agenda, ahead, none⟩ := by
  obtain ⟨alone, started⟩ := creating.walking _ rfl
  have turns : (c'.park v duration left).turns = c.turns :=
    (World.turns_note _ _).trans ((List.append_nil _).trans strode.turns)
  cases strode with
  | suspend _ _ acted =>
    obtain ⟨⟨operand, rfl⟩, rfl⟩ := World.act_suspend acted
    refine ⟨creating.alone, nofun, fun j member x held => ?_, fun j member marked => ?_⟩
    · obtain ⟨i, before, rfl⟩ := List.mem_map.mp member
      rw [turns]
      split at held
      next mine =>
        rw [if_pos mine]
        rcases List.mem_append.mp held with old | new
        · exact creating.waits i before x old
        · -- the wait is one of the invocation that is walked
          cases List.mem_singleton.mp new
          have object : i.object = v.object := (coherent.walking _ rfl).present.object coherent.world before mine
          obtain ⟨actor, object', slot, partner⟩ := v
          cases mine
          cases object
          cases alone
          exact .inr started
      next other =>
        rw [if_neg other]
        exact creating.waits i before x held
    · obtain ⟨i, before, rfl⟩ := List.mem_map.mp member
      refine Resigned.later ?_ stepped
      split at marked
      next mine =>
        rw [if_pos mine]
        exact creating.destroyed i before marked
      next other =>
        rw [if_neg other]
        exact creating.destroyed i before marked

/-- At every moment of the create phase only instances themselves have been at work. -/
theorem steps_creating (ready : w.Ready) (inside : Steps (begin w delta) m) (phase : m.phase = .create) :
    Creating w delta m := by
  induction inside with
  | refl =>
    constructor
    · rw [begin_agenda]
      exact nofun
    · intro walk walking
      rw [begin_walking] at walking
      cases walking
    · rw [begin_world]
      exact fun j member x held => .inl ⟨j, member, rfl, held⟩
    · rw [begin_world]
      intro j member marked
      rw [ready.alive j member] at marked
      cases marked
  | @tail m next inside stepped ih =>
    have coherent := steps_coherent ready.coherent inside
    -- a step that begins or leaves a walk keeps all instances
    have same : ∀ j ∈ m.world.instances, ∃ i ∈ m.world.instances,
        j.id = i.id ∧ j.object = i.object ∧ j.waits = i.waits ∧ j.destroyed = i.destroyed :=
      fun j member => ⟨j, member, rfl, rfl, rfl, rfl⟩
    cases step_moved stepped with
    | walk strode => exact (ih phase).strode inside phase coherent stepped rfl strode rfl (by rintro _ ⟨⟩; rfl)
    | halt strode => exact (ih phase).strode inside phase coherent stepped rfl strode rfl nofun
    | fail strode => exact (ih phase).strode inside phase coherent stepped rfl strode rfl nofun
    | park strode =>
      cases phase
      exact (ih rfl).park coherent stepped strode
    | finish _ => exact (ih phase).kept stepped (ih phase).alone nofun ⟨[], (List.append_nil _).symm⟩ same
    | pass _ | drop _ =>
      have creating := ih phase
      exact creating.kept stepped (fun turn listed => creating.alone turn (List.mem_cons_of_mem _ listed)) nofun
        ⟨[], (List.append_nil _).symm⟩ same
    | start _ _ =>
      have creating := ih phase
      refine creating.kept stepped (fun turn listed => creating.alone turn (List.mem_cons_of_mem _ listed)) ?_
        ⟨_, World.turns_note _ _⟩ same
      rintro walk ⟨⟩
      obtain ⟨u, turn, alone⟩ := creating.alone _ List.mem_cons_self
      cases turn
      refine ⟨alone, ?_⟩
      rw [World.turns_note]
      exact List.mem_append_right _ (List.mem_singleton_self _)
    | resume _ _ =>
      obtain ⟨v, start, _⟩ := (ih phase).alone _ List.mem_cons_self
      cases start
    | create =>
      refine (ih phase).kept stepped (fun turn listed => ?_) nofun ⟨[], (List.append_nil _).symm⟩ fun j member => ?_
      · obtain ⟨u, arranged, rfl⟩ := List.mem_map.mp listed
        obtain ⟨_, _, rfl, _⟩ := World.mem_invocations.mp arranged
        exact ⟨_, rfl, rfl⟩
      · obtain ⟨i, before, rfl⟩ := List.mem_map.mp member
        refine ⟨i, before, ?_⟩
        split <;> exact ⟨rfl, rfl, rfl, rfl⟩
    | created | step _ | stepped | collided | handle _ _ _ | handled _ | commit | transition _
    | transitionFailed _ | request _ | requestFailed _ | close => cases phase

/-- Nothing but its own destruction bars a Create event of an instance that had no waits. -/
private theorem Creating.barred (creating : Creating w delta m) (coherent : m.Coherent)
    (unheld : ∀ i ∈ w.instances, i.id = v.actor → i.waits = []) {rest : List (Turn τ)}
    (turn : m.agenda = .start v :: rest) (bars : m.world.bars v = true) :
    .start v ∈ m.world.turns ∨ Resigned w delta v.actor m := by
  have alone : v.partner = none := by
    obtain ⟨u, same, alone⟩ := creating.alone _ (turn ▸ List.mem_cons_self)
    cases same
    exact alone
  cases coherent.turns _ (turn ▸ List.mem_cons_self) with
  | start there _ =>
    by_cases waits : m.world.Waiting v.actor v.slot
    · left
      obtain ⟨j, member, mine, held⟩ := waits
      obtain ⟨x, held, slot⟩ := List.mem_map.mp held
      rcases creating.waits j member x held with ⟨i, before, same, old⟩ | started
      · rw [unheld i before (same.trans mine)] at old
        cases old
      · have object := there.object coherent.world member mine
        rw [mine, object, slot, ← alone] at started
        exact started
    · right
      obtain ⟨j, member, mine, _⟩ := there
      by_cases destroyed : m.world.isDestroyed v.actor = true
      · have marked := World.isDestroyed_iff coherent.world.ids member
        rw [mine, destroyed] at marked
        exact mine ▸ creating.destroyed j member marked.symm
      · -- otherwise nothing bars it
        have free := (World.bars_iff coherent.world.ids v).mpr
          ⟨by simpa using destroyed, by rw [alone]; rfl, waits⟩
        rw [free] at bars
        cases bars

/-- How a Create event fares: it is still to come, or it has been started, or its instance had destroyed
itself at its turn. -/
private inductive Fares (w : World τ) (delta : τ) (v : Invocation) (m : Moment τ) : Prop
  | listed : m.phase = .create → .start v ∈ m.agenda → Fares w delta v m
  | ahead {i : Instance τ} : m.phase = .create → i ∈ m.ahead →
      v ∈ m.world.invocations i none (· == .create) → Fares w delta v m
  | started : .start v ∈ m.world.turns → Fares w delta v m
  | resigned {turn : Moment τ} {rest : List (Turn τ)} : Steps (begin w delta) turn → turn.phase = .create →
      turn.agenda = .start v :: rest → Resigned w delta v.actor turn → Fares w delta v m

private theorem started_later (moved : Moved m next) (started : .start v ∈ m.world.turns) :
    .start v ∈ next.world.turns := by
  obtain ⟨entries, journal, _⟩ := moved.notes
  simp only [World.turns, World.happenings, journal, List.reverse_append, List.filterMap_append]
  exact List.mem_append_left _ started

private theorem Fares.moved (fares : Fares w delta v m) (ready : w.Ready) (inside : Steps (begin w delta) m)
    (stepped : m.step = some next) (unheld : ∀ i ∈ w.instances, i.id = v.actor → i.waits = []) :
    Fares w delta v next := by
  have coherent := steps_coherent ready.coherent inside
  have moved := step_moved stepped
  cases fares with
  | started taken => exact .started (started_later moved taken)
  | resigned inside phase turn resigned => exact .resigned inside phase turn resigned
  | @ahead i phase ahead planned =>
    have planned' : v ∈ next.world.invocations i none (· == .create) := by
      rw [invocations_program moved.sameGame.program]
      exact planned
    cases moved with
    | create =>
      rcases List.mem_cons.mp ahead with rfl | later
      · exact .listed rfl (List.mem_map_of_mem planned)
      · exact .ahead rfl later planned'
    | created => cases ahead
    | walk _ | finish _ | park _ | halt _ | fail _ => exact .ahead phase ahead planned'
    | pass _ | drop _ | start _ _ | resume _ _ => exact .ahead phase ahead planned'
    | step _ | stepped | collided | handle _ _ _ | handled _ | commit | transition _ | transitionFailed _
    | request _ | requestFailed _ | close => cases phase
  | listed phase listed =>
    obtain ⟨phase', _, agenda⟩ := moved.listed (List.ne_nil_of_mem listed)
    rcases agenda with ⟨_, same⟩ | ⟨idle, turn, split⟩
    · exact .listed (phase'.trans phase) (same ▸ listed)
    rw [split] at listed
    rcases List.mem_cons.mp listed with rfl | later
    · by_cases bars : m.world.bars v = true
      · rcases (steps_creating ready inside phase).barred coherent unheld split bars with taken | resigned
        · exact .started (started_later moved taken)
        · exact .resigned inside phase split resigned
      · -- what is not barred starts
        have running : m.ending = none := by
          by_contra ended
          rw [step] at stepped
          split at stepped
          · cases stepped
          next none => exact ended none
        obtain ⟨next', stepped', noted⟩ := coherent.starts running idle split (by simpa using bars)
        cases stepped.symm.trans stepped'
        refine .started ?_
        rw [World.turns, World.happenings, noted, List.reverse_cons, List.filterMap_append]
        exact List.mem_append_right _ (List.mem_singleton_self _)
    · exact .listed (phase'.trans phase) later

private theorem steps_fare (ready : w.Ready) (still : w.transition.isRunning = false) (planned : v ∈ w.createPlan)
    (unheld : ∀ i ∈ w.instances, i.id = v.actor → i.waits = []) (inside : Steps (begin w delta) m) :
    Fares w delta v m := by
  induction inside with
  | refl =>
    rw [World.begin_still still]
    obtain ⟨i, live, fresh, planned⟩ := World.mem_createPlan.mp planned
    exact .ahead rfl (List.mem_filter.mpr ⟨live, fresh⟩) planned
  | tail inside stepped ih => exact ih.moved ready inside stepped unheld

end Moment

/-! ### what a tick makes of fresh instances -/

namespace World

variable {w : World τ} {delta : τ} {v : Invocation}

/-- What becomes of a Create event on the tick that is to start it. It is started once, or not at all: then
the tick is cut short in the create phase, or the instance has destroyed itself before in this phase. -/
inductive Creation (w : World τ) (delta : τ) (v : Invocation) : Prop
  | once : (w.tick delta).world.starts.count v = 1 → Creation w delta v
  | cut {last : Moment τ} : (w.tick delta).world.starts.count v = 0 → Moment.Steps (.begin w delta) last →
      last.phase = .create → last.ending = some (w.tick delta).ending →
      (w.tick delta).ending ≠ .finished → Creation w delta v
  | resigned {turn : Moment τ} {rest : List (Turn τ)} : (w.tick delta).world.starts.count v = 0 →
      Moment.Steps (.begin w delta) turn → turn.phase = .create → turn.agenda = .start v :: rest →
      Moment.Resigned w delta v.actor turn → Creation w delta v

namespace Ready

/-- What a tick adds is new when the tick is over. -/
theorem tick_new (ready : w.Ready) (delta : τ) :
    ∀ j ∈ (w.tick delta).world.instances, w.lastId < j.id → j.New w.program := by
  obtain ⟨last, inside, world, _⟩ := Moment.tick_passes w delta
  rw [← world]
  exact Moment.steps_new ready inside

theorem tick_has (ready : w.Ready) (started : v ∈ (w.tick delta).world.starts) : w.Has v.actor v.object := by
  obtain ⟨last, inside, world, _⟩ := Moment.tick_passes w delta
  rw [← world] at started
  exact Moment.steps_has ready inside (Turn.mem_starts.mp started)

/-- After a tick that has come to its end, only what it has created is fresh. -/
theorem tick_handled (ready : w.Ready) (still : w.transition.isRunning = false)
    (finished : (w.tick delta).ending = .finished) :
    ∀ j ∈ (w.tick delta).world.instances, j.id ≤ w.lastId → j.fresh = false := by
  obtain ⟨last, inside, world, ending⟩ := Moment.tick_passes w delta
  rw [finished] at ending
  rw [← world]
  intro j member old
  by_contra fresh
  obtain ⟨phase, _⟩ := Moment.steps_fresh ready still inside j member old (by simpa using fresh)
  cases phase.symm.trans (Moment.steps_closed ready.coherent inside ending).1

/-- A Create event is started by a tick only if its instance was fresh when the tick began, and once. -/
theorem tick_creates (ready : w.Ready) (delta : τ) (still : w.transition.isRunning = false)
    (create : w.program.trigger? v.object v.slot = some .create) :
    (w.tick delta).world.starts.count v ≤ 1 ∧ (v ∈ (w.tick delta).world.starts → v ∈ w.createPlan) := by
  obtain ⟨created, rest, turns, listed, others⟩ := tick_created delta ready.coherent still
  have starts : (w.tick delta).world.starts = created ++ rest.filterMap Turn.starts? := by
    rw [World.starts, turns, List.filterMap_append, List.filterMap_map]
    exact congrArg (· ++ _) List.filterMap_some
  have absent : v ∉ rest.filterMap Turn.starts? := fun started => others v (Turn.mem_starts.mp started) create
  have distinct : w.createPlan.Nodup := (nodup_of_ascending (createPlan_ascending ready.coherent.ids)).of_map _
  rw [starts]
  constructor
  · rw [List.count_append, List.count_eq_zero_of_not_mem absent]
    exact List.nodup_iff_count_le_one.mp (distinct.sublist listed) v
  · intro started
    exact listed.subset ((List.mem_append.mp started).resolve_right absent)

/-- A Create event that is due is started once, or something kept it from its turn. -/
theorem tick_creation (ready : w.Ready) (still : w.transition.isRunning = false) (planned : v ∈ w.createPlan)
    (unheld : ∀ i ∈ w.instances, i.id = v.actor → i.waits = []) : w.Creation delta v := by
  obtain ⟨last, inside, world, ending⟩ := Moment.tick_passes w delta
  have create := (createPlan_creates planned).2
  have most := (ready.tick_creates delta still create).1
  by_cases taken : v ∈ (w.tick delta).world.starts
  · have least := List.count_pos_iff.mpr taken
    exact .once (by omega)
  have none : (w.tick delta).world.starts.count v = 0 := List.count_eq_zero_of_not_mem taken
  -- a tick that comes to its end has left the create phase
  have unfinished (phase : last.phase = .create) : (w.tick delta).ending ≠ .finished := by
    intro finished
    rw [finished] at ending
    cases phase.symm.trans (Moment.steps_closed ready.coherent inside ending).1
  cases Moment.steps_fare ready still planned unheld inside with
  | listed phase _ => exact .cut none inside phase ending (unfinished phase)
  | ahead phase _ _ => exact .cut none inside phase ending (unfinished phase)
  | started started =>
    rw [world] at started
    exact absurd (Turn.mem_starts.mpr started) taken
  | resigned inside phase turn resigned => exact .resigned none inside phase turn resigned

end Ready

end World

end Gameplay
