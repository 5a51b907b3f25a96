import Gameplay.Proofs.Completion
import Gameplay.Proofs.Deeds
import Gameplay.Proofs.Encounters
import Gameplay.Proofs.WaitTime

/-!
# Destroyed instances

An instance that is marked as destroyed stays marked until it is removed, and its id is not given out again.
Every turn looks at the marks of its time, so none comes to the instance or to a partner of it any more.

## Main result

`destroyed_gets_nothing_more`: from the moment at which an action marks an instance, for the rest of the run.
-/

namespace Gameplay

namespace Moment

variable {τ : Type} [Scalar τ] {m next : Moment τ} {id : Nat}

/-- A step carries out an action of an invocation that is aimed at an instance. -/
structure Destroys (v : Invocation) (id : Nat) (m next : Moment τ) : Prop where
  stepped : m.step = some next
  aimed : ∃ action, next.world.journal = .performed v action :: m.world.journal ∧ action.Aims m.world v id

/-- A step starts nothing on an instance and nothing that meets it, resumes none of its waits, and does not
move it when the step phase is over. -/
structure Spares (id : Nat) (m next : Moment τ) : Prop where
  started : ∀ v, next.world.journal = .started v :: m.world.journal → v.actor ≠ id ∧ v.partner ≠ some id
  resumed : ∀ v wait, next.world.journal = .resumed v wait :: m.world.journal → v.actor ≠ id
  moved : m.phase = .step → next.phase = .collision →
    ∀ i ∈ m.world.instances, i.id = id → i ∈ next.world.instances

/-- An invocation of an instance is walked. -/
def Walks (m : Moment τ) (id : Nat) : Prop := ∃ walk, m.walking = some walk ∧ walk.invocation.actor = id

/-- The partners of the turns that are listed are there. -/
def Met (m : Moment τ) : Prop :=
  ∀ v other, .start v ∈ m.agenda → v.partner = some other → ∃ object, m.world.Has other object

private theorem strode_has {w w' : World τ} {v : Invocation} {frames : List Frame} {stride : Stride τ}
    (strode : World.Strode v w frames w' stride) : ∀ id object, w.Has id object → w'.Has id object := by
  obtain ⟨w₀, status, entries, change, rfl, _⟩ := strode.acted
  exact change.stays.has

omit [Scalar τ] in
private theorem met_alone {w : World τ} {phase : Phase} {ahead : List (Instance τ)}
    {agenda : List (Turn τ)} {ending : Option Ending} (alone : ∀ v, .start v ∈ agenda → v.partner = none) :
    Met ⟨w, phase, none, agenda, ahead, ending⟩ := by
  intro v other listed met
  rw [alone v listed] at met
  cases met

omit [Scalar τ] in
private theorem invocations_alone {w : World τ} {i : Instance τ} {wanted : Trigger → Bool} {v : Invocation}
    (listed : (.start v : Turn τ) ∈ (w.invocations i none wanted).map .start) : v.partner = none := by
  obtain ⟨u, arranged, same⟩ := List.mem_map.mp listed
  cases same
  obtain ⟨_, _, rfl, _⟩ := World.mem_invocations.mp arranged
  rfl

/-- A step adds no turn with a partner that is not there, and instances leave only when no turn is listed. -/
theorem Met.moved (met : m.Met) (moved : Moved m next) (coherent : m.Coherent) : next.Met := by
  -- as long as turns are listed, no step removes an instance
  have kept {w' : World τ} (stays : ∀ id object, m.world.Has id object → w'.Has id object) :
      ∀ v other, .start v ∈ m.agenda → v.partner = some other → ∃ object, w'.Has other object := by
    intro v other listed meets
    obtain ⟨object, there⟩ := met v other listed meets
    exact ⟨object, stays other object there⟩
  cases moved with
  | walk strode => exact kept (strode_has strode)
  | halt strode => exact kept (strode_has strode)
  | fail strode => exact kept (strode_has strode)
  | park strode =>
    refine kept fun id object there => ?_
    obtain ⟨i, member, mine, same⟩ := strode_has strode id object there
    refine ⟨_, List.mem_map_of_mem member, ?_⟩
    split
    · exact ⟨mine, same⟩
    · exact ⟨mine, same⟩
  | finish _ => exact met
  | pass _ => exact fun v other listed => met v other (List.mem_cons_of_mem _ listed)
  | drop _ => exact fun v other listed => met v other (List.mem_cons_of_mem _ listed)
  | start _ _ => exact fun v other listed => met v other (List.mem_cons_of_mem _ listed)
  | resume _ _ => exact fun v other listed => met v other (List.mem_cons_of_mem _ listed)
  | create => exact met_alone fun v listed => invocations_alone listed
  | step _ =>
    refine met_alone fun v listed => ?_
    rcases List.mem_append.mp listed with resumes | starts
    · obtain ⟨wait, _, same⟩ := List.mem_map.mp resumes
      cases same
    · exact invocations_alone starts
  | stepped =>
    intro v other listed meets
    obtain ⟨u, arranged, same⟩ := List.mem_map.mp listed
    cases same
    have still := World.applyVelocities_coherent coherent.world
    obtain ⟨i, j, slot, encounter, rfl⟩ := (World.mem_collisions still).mp arranged
    cases meets
    exact ⟨j.object, j, encounter.other.1, rfl, rfl⟩
  | handle _ _ _ =>
    refine met_alone fun v listed => ?_
    obtain ⟨u, arranged, same⟩ := List.mem_map.mp listed
    cases same
    obtain ⟨e, _, arranged⟩ := List.mem_flatMap.mp arranged
    obtain ⟨i, _, arranged⟩ := List.mem_flatMap.mp arranged
    obtain ⟨_, _, rfl, _⟩ := World.mem_invocations.mp arranged
    rfl
  | created | collided | handled _ | commit | transition _ | transitionFailed _ | request _
  | requestFailed _ | close => exact met_alone nofun

/-! ### from the mark on -/

/-- A moment at which an instance is destroyed, or no longer there. -/
structure Gone (id : Nat) (m : Moment τ) : Prop where
  coherent : m.Coherent
  met : m.Met
  given : id ≤ m.world.lastId
  dead : m.world.Dead id

theorem Gone.moved (gone : Gone id m) (moved : Moved m next) : Gone id next where
  coherent := gone.coherent.moved moved
  met := gone.met.moved moved gone.coherent
  given := Nat.le_trans gone.given (moved.lastId gone.coherent)
  dead := moved.dead gone.coherent gone.given gone.dead

omit [Scalar τ] in
/-- What is there and not destroyed is another instance. -/
private theorem Gone.other (gone : Gone id m) {actor object : Nat} (there : m.world.Has actor object)
    (alive : m.world.isDestroyed actor = false) : actor ≠ id := by
  rintro rfl
  obtain ⟨i, member, mine, _⟩ := there
  have destroyed := World.isDestroyed_iff gone.coherent.world.ids member
  rw [mine, alive, gone.dead i member mine] at destroyed
  cases destroyed

/-- Neither a turn nor the movement of instances comes to a destroyed instance. -/
theorem Gone.spares (gone : Gone id m) (stepped : m.step = some next) : Spares id m next := by
  have moved := step_moved stepped
  constructor
  -- a turn that is started is about an instance that is there and not destroyed
  · intro v noted
    obtain ⟨_, ⟨rest, turn⟩, free⟩ := moved.started noted
    have listed : .start v ∈ m.agenda := turn ▸ List.mem_cons_self
    obtain ⟨alive, partner, _⟩ := (World.bars_iff gone.coherent.world.ids v).mp free
    constructor
    · cases gone.coherent.turns _ listed with
      | start there _ => exact gone.other there alive
    · -- the partner was there when the turn was arranged, and nothing has been removed since
      intro meets
      obtain ⟨object, there⟩ := gone.met v id listed meets
      rw [meets] at partner
      exact gone.other there partner rfl
  · intro v wait noted
    cases moved.noted noted with
    | resumed _ turn alive =>
      cases gone.coherent.turns _ (turn ▸ List.mem_cons_self) with
      | resume there _ _ => exact gone.other there alive
  · intro stepPhase collisionPhase i member mine
    cases moved with
    | stepped =>
      refine List.mem_map.mpr ⟨i, member, ?_⟩
      rw [gone.dead i member mine]
      rfl
    | walk _ | finish _ | park _ | halt _ | fail _ | pass _ | drop _ | start _ _ | resume _ _ =>
      cases stepPhase.symm.trans collisionPhase
    | create | created | step _ | collided | handle _ _ _ | handled _ | commit | transition _
    | transitionFailed _ | request _ | requestFailed _ | close => cases collisionPhase

private theorem Gone.unwalked (gone : Gone id m) (still : ¬ m.Walks id) (moved : Moved m next) :
    ¬ next.Walks id := by
  rintro ⟨walk, walking, rfl⟩
  cases moved with
  | walk _ =>
    cases walking
    exact still ⟨_, rfl, rfl⟩
  | start free _ =>
    -- a turn looks at the mark before it starts or resumes anything
    cases walking
    obtain ⟨alive, _⟩ := (World.bars_iff gone.coherent.world.ids _).mp free
    cases gone.coherent.turns _ List.mem_cons_self with
    | start there _ => exact gone.other there alive rfl
  | resume alive _ =>
    cases walking
    cases gone.coherent.turns _ List.mem_cons_self with
    | resume there _ _ => exact gone.other there alive rfl
  | finish _ | park _ | halt _ | fail _ | pass _ | drop _ | create | created | step _ | stepped | collided
  | handle _ _ _ | handled _ | commit | transition _ | transitionFailed _ | request _ | requestFailed _
  | close => cases walking

theorem Gone.later (gone : Gone id m) {last : Moment τ} (steps : Steps m last) : Gone id last :=
  steps.invariant gone fun moved gone => gone.moved moved

/-- If no walk of the instance is in progress, none is for the rest of the tick. -/
theorem Gone.never_walked (gone : Gone id m) (still : ¬ m.Walks id) {last : Moment τ}
    (steps : Steps m last) : ¬ last.Walks id := by
  have both : Gone id last ∧ ¬ last.Walks id :=
    steps.invariant (P := fun m => Gone id m ∧ ¬ m.Walks id) ⟨gone, still⟩
      fun moved ⟨gone, still⟩ => ⟨gone.moved moved, gone.unwalked still moved⟩
  exact both.2

/-! ### the mark -/

omit [Scalar τ] in
private theorem aims_present {w : World τ} {v : Invocation} {action : Action}
    (present : (w.instance? v.actor).isSome = true) (aims : action.Aims w v id) :
    ∃ i ∈ w.instances, i.id = id := by
  have found : (w.instance? id).isSome = true := by
    cases aims with
    | self => exact present
    | other _ there => exact there
  obtain ⟨i, found⟩ := Option.isSome_iff_exists.mp found
  exact ⟨i, World.instance?_some found⟩

/-- A step that destroys is one of the walk of its invocation, which goes on. -/
private theorem Destroys.walks {v : Invocation} (destroys : Destroys v id m next) :
    ∃ (steps : Nat) (frames left : List Frame), m.walking = some ⟨v, steps + 1, frames⟩ ∧
      World.Strode v m.world frames next.world (.on left) ∧ next.walking = some ⟨v, steps, left⟩ ∧
      next.ending = none := by
  obtain ⟨stepped, action, noted, aims⟩ := destroys
  have moved := step_moved stepped
  cases moved.noted noted with
  | performed walking =>
    -- of the steps of a walk only those that go on carry out an action with an aim
    cases moved with
    | walk strode =>
      cases walking
      exact ⟨_, _, _, rfl, strode, rfl, rfl⟩
    | park _ => cases noted
    | halt strode =>
      cases strode with
      | halt _ _ acted =>
        obtain ⟨message, rfl, rfl⟩ := World.act_halt acted
        cases noted
        cases aims
    | fail strode =>
      cases strode with
      | fail _ _ acted =>
        have same := (World.act_fail acted).1.journal
        exact absurd (noted.symm.trans same) (List.cons_ne_self _ _)
      | dangle _ _ _ => exact absurd noted.symm (List.cons_ne_self _ _)
    | finish _ => exact absurd noted.symm (List.cons_ne_self _ _)
    | pass _ | drop _ | start _ _ | resume _ _ | create | created | step _ | stepped | collided | handle _ _ _
    | handled _ | commit | transition _ | transitionFailed _ | request _ | requestFailed _ | close =>
      cases walking

/-- An action that is aimed at an instance marks it, and no instance of that id stays unmarked. -/
private theorem Destroys.marks {v : Invocation} (destroys : Destroys v id m next) (coherent : m.Coherent) :
    (∃ i ∈ next.world.instances, i.id = id ∧ i.destroyed = true) ∧ next.world.Dead id := by
  obtain ⟨steps, frames, left, walking, strode, _, _⟩ := destroys.walks
  obtain ⟨_, action, noted, aims⟩ := destroys
  have present := coherent.actor_present walking
  obtain ⟨done, journal, deed⟩ := strode.deed present
  -- the step notes one thing, which is the action
  have did : action ∈ done := by
    rw [noted] at journal
    cases done with
    | none => exact absurd journal (List.cons_ne_self _ _)
    | some a =>
      cases (List.cons.inj journal).1
      rfl
  have marked : ∀ j ∈ next.world.instances, j.id = id → j.destroyed = true := by
    rintro j member rfl
    obtain ⟨i, _, same, marks⟩ := related_mem deed.marks member
    exact marks.mpr (.inr ⟨action, did, same ▸ aims⟩)
  obtain ⟨i, member, mine⟩ := aims_present present aims
  obtain ⟨j, there, same, _⟩ := related_mem deed.marks.flip member
  exact ⟨⟨j, there, same.trans mine, marked j there (same.trans mine)⟩, marked⟩

theorem Destroys.gone {v : Invocation} (destroys : Destroys v id m next) (coherent : m.Coherent)
    (met : m.Met) : Gone id next := by
  have moved := step_moved destroys.stepped
  obtain ⟨⟨i, member, mine, _⟩, dead⟩ := destroys.marks coherent
  have coherent' := coherent.moved moved
  refine ⟨coherent', met.moved moved coherent, ?_, dead⟩
  rw [← mine]
  exact (coherent'.world.instances i member).given

theorem begin_met (w : World τ) (delta : τ) : (begin w delta).Met := by
  intro v other listed
  rw [begin_agenda] at listed
  cases listed

theorem steps_met {w : World τ} (coherent : w.Coherent) {delta : τ} (inside : Steps (begin w delta) m) :
    m.Met :=
  inside.keeps (begin_coherent coherent delta) (begin_met w delta) fun moved coherent met =>
    met.moved moved coherent

/-- The moment that comes a number of steps later, if the tick does not end before. -/
def after? (m : Moment τ) : Nat → Option (Moment τ)
  | 0 => some m
  | n + 1 => m.step.bind (after? · n)

theorem after?_steps {n : Nat} {last : Moment τ} (found : m.after? n = some last) : Steps m last := by
  induction n generalizing m with
  | zero =>
    cases found
    exact .refl
  | succ n ih =>
    obtain ⟨next, stepped, found⟩ := Option.bind_eq_some_iff.mp found
    exact (ih found).head stepped

end Moment

/-! ### the rest of the run -/

namespace Game

variable {τ : Type} [Scalar τ] {g : Game τ} {id : Nat}

/-- A game in which an instance was destroyed, and may have been removed. -/
private structure Without (id : Nat) (g : Game τ) : Prop where
  coherent : g.world.Coherent
  given : id ≤ g.world.lastId
  dead : g.world.Dead id

private theorem Without.begins (without : Without id g) (delta : τ) :
    Moment.Gone id (.begin g.world delta) where
  coherent := Moment.begin_coherent without.coherent delta
  met := Moment.begin_met g.world delta
  given := by
    rw [Moment.begin_world]
    exact without.given
  dead := by
    rw [Moment.begin_world]
    exact without.dead

private theorem Plays.without {delta : τ} (plays : g.Plays delta) {last : Moment τ}
    (world : last.world = (g.world.tick delta).world) (gone : Moment.Gone id last) :
    Without id (g.tick delta).1 := by
  have coherent : (g.world.tick delta).world.Coherent := world ▸ gone.coherent.world
  have given : id ≤ (g.world.tick delta).world.lastId := world ▸ gone.given
  have dead : (g.world.tick delta).world.Dead id := world ▸ gone.dead
  rw [plays.tick, settle]
  split
  · refine ⟨World.stop_coherent coherent, given, fun j member mine => ?_⟩
    obtain ⟨i, there, rfl⟩ := List.mem_map.mp member
    exact dead i there mine
  · exact ⟨coherent, given, dead⟩

private theorem Without.call (without : Without id g) {c : HostCall τ} (stays : c.staysInRun = true) :
    Without id (g.call c).1 := by
  rcases g.call_cases stays with ⟨delta, rfl, plays⟩ | ⟨_, same | ⟨keys, sounds, same⟩⟩
  · obtain ⟨last, inside, world, _⟩ := Moment.tick_passes g.world delta
    exact plays.without world ((without.begins delta).later inside)
  · have coherent := kept_coherent.call g c without.coherent
    rw [same] at coherent
    constructor
    -- a stop drops waits, and marks nobody alive again
    · rw [same]
      exact coherent
    · rw [same]
      exact without.given
    · rw [same]
      intro j member mine
      obtain ⟨i, there, rfl⟩ := List.mem_map.mp member
      exact without.dead i there mine
  · have coherent := kept_coherent.call g c without.coherent
    rw [same] at coherent
    constructor
    · rw [same]
      exact coherent
    · rw [same]
      exact without.given
    · rw [same]
      exact without.dead

omit [Scalar τ] in
private theorem Without.unseen (without : Without id g) : id ∉ g.snapshot.instances.map (·.id) := by
  intro seen
  simp only [snapshot, List.map_map, List.mem_map, Function.comp_apply] at seen
  obtain ⟨i, live, mine⟩ := seen
  obtain ⟨member, alive⟩ := World.mem_live.mp live
  rw [without.dead i member mine] at alive
  cases alive

/-- Let an action of any run mark an instance, in a step of a tick that plays. From this step to the end of the
run no invocation starts on the instance or meets it, no wait of it is resumed, its velocity does not move
it, and no snapshot shows it. The invocation that has marked it goes on until it is over, and after that no
invocation of the instance is ever walked. -/
theorem destroyed_gets_nothing_more (settings : Settings) (calls : List (HostCall τ)) (delta : τ)
    (v : Invocation) (id : Nat) (m next : Moment τ) :
    let g : Game τ := (new settings).after calls
    g.Plays delta → Moment.Steps (.begin g.world delta) m → Moment.Destroys v id m next →
      (∃ i ∈ next.world.instances, i.id = id ∧ i.destroyed = true) ∧
      (∀ later after, Moment.Steps next later → later.step = some after → Moment.Spares id later after) ∧
      (∃ idle, Moment.RunsOut v next idle ∧ ∀ later, Moment.Steps idle later → ¬ later.Walks id) ∧
      ∀ further : List (HostCall τ), (∀ c ∈ further, c.staysInRun = true) →
        let h := (g.tick delta).1.after further
        id ∉ h.snapshot.instances.map (·.id) ∧
        ∀ length, h.Plays length → ∀ later, Moment.Steps (.begin h.world length) later →
          ¬ later.Walks id ∧ ∀ after, later.step = some after → Moment.Spares id later after := by
  intro g plays inside destroys
  have world : g.world.Coherent := after_coherent settings calls
  have coherent := Moment.steps_coherent world inside
  have gone := destroys.gone coherent (Moment.steps_met world inside)
  have inside' := inside.tail destroys.stepped
  refine ⟨(destroys.marks coherent).1, fun later after steps stepped => (gone.later steps).spares stepped,
    ?_, fun further stay => ?_⟩
  · obtain ⟨_, _, _, _, _, walking, running⟩ := destroys.walks
    obtain ⟨idle, runs⟩ := Moment.runs_out gone.coherent (Moment.steps_funded world inside') running walking
    refine ⟨idle, runs, fun later steps => ?_⟩
    -- when the walk is over nothing is walked, and no later turn is one of the instance
    have still : ¬ idle.Walks id := by
      rintro ⟨walk, walking, _⟩
      cases runs.idle.symm.trans walking
    exact (gone.later runs.steps).never_walked still steps
  · obtain ⟨last, reached, ends, _⟩ := Moment.tick_goes_on inside'
    have first : Without id (g.tick delta).1 := plays.without ends (gone.later reached)
    have without : Without id ((g.tick delta).1.after further) :=
      after_stays (P := Without id) (fun g c stays without => without.call stays) first stay
    refine ⟨without.unseen, fun length _ later steps => ?_⟩
    have begins := without.begins length
    have still : ¬ (Moment.begin ((g.tick delta).1.after further).world length).Walks id := by
      rintro ⟨walk, walking, _⟩
      unfold Moment.begin at walking
      dsimp only at walking
      split at walking <;> cases walking
    exact ⟨begins.never_walked still steps, fun after stepped => (begins.later steps).spares stepped⟩

/-- The cat destroys itself, scores, naps, and would score again. -/
def doomed : Project where
  version := 1
  declarations := []
  objects := [⟨"cat", "Cat", none, some 1, some 1, false, [],
    [⟨.step, .act .destroySelf (.act (.changeScore (.literal (.number 1)))
      (.act (.wait (.literal (.number 5))) (.act (.changeScore (.literal (.number 1))) .done)))⟩]⟩]
  rooms := [⟨"room", "Room", 10, 10, [⟨"bed", "cat", 0, 0, none⟩]⟩]
  sprites := []
  sounds := []

/-- The cat scores once after its destruction, but its nap never ends. -/
theorem destroyed_gets_nothing_more_doomed :
    let g : Game Float := (new .default).after [.start doomed "room"]
    let step : Invocation := ⟨1, 0, 0, none⟩
    g.Plays 16 ∧ (∃ m next, Moment.Steps (.begin g.world 16) m ∧ Moment.Destroys step 1 m next ∧
      (∃ idle, Moment.RunsOut step next idle ∧ ¬ idle.Walks 1)) ∧
      1 ∉ ((g.tick 16).1.after [.tick 16]).snapshot.instances.map (·.id) ∧
      ((g.tick 16).1.after [.tick 16]).world.score = 1 := by
  have plays : ((new .default : Game Float).after [.start doomed "room"]).Plays 16 := by decide +kernel
  have score : ((((new .default : Game Float).after [.start doomed "room"]).tick 16).1.after
      [.tick 16]).world.score = 1 := by decide +kernel
  -- the fourth step of the tick starts the invocation, and the fifth carries out its first action
  have fifth : (((Moment.begin ((new .default : Game Float).after [.start doomed "room"]).world 16).after? 4).bind
      fun m => m.step.map fun next =>
        decide (next.world.journal = .performed ⟨1, 0, 0, none⟩ .destroySelf :: m.world.journal)) = some true := by
    decide +kernel
  obtain ⟨m, found, made⟩ := Option.bind_eq_some_iff.mp fifth
  obtain ⟨next, stepped, noted⟩ := Option.map_eq_some_iff.mp made
  have inside := Moment.after?_steps found
  have destroys : Moment.Destroys ⟨1, 0, 0, none⟩ 1 m next :=
    ⟨stepped, .destroySelf, of_decide_eq_true noted, .self⟩
  obtain ⟨_, _, ⟨idle, runs, still⟩, unseen⟩ :=
    destroyed_gets_nothing_more .default [.start doomed "room"] 16 _ 1 m next plays inside destroys
  have stay : ∀ c ∈ [(.tick 16 : HostCall Float)], c.staysInRun = true := by
    intro c listed
    rw [List.mem_singleton.mp listed]
    rfl
  exact ⟨plays, ⟨m, next, inside, destroys, idle, runs, still idle .refl⟩,
    (unseen [.tick 16] stay).1, score⟩

end Game

end Gameplay
