import Gameplay.Proofs.Allocation

/-!
# Variables keep their types

A variable has the type of its last declaration for as long as it is there. Whatever is computed for it, what
is stored has the form of this type, and a stored number is finite.

## Main results

`mem_ofDeclarations`: the variables of a scope, before anything is assigned.
`Becomes.typed`: no step of a run stores a value of another form.
`variables_keep_types`: this over whole runs.

## Proof strategy

Every value that is stored has passed the one coercion of `Variables.assign?` or of
`Variables.ofDeclarations`, so nothing has to be known of what the actions compute.
-/

namespace Gameplay

/-- Every value converts to a finite number. -/
theorem Value.toNumber_finite (v : Value) : v.toNumber.isFinite = true := by
  have finite_or_zero (n : Float) : (if n.isFinite then n else 0).isFinite = true := by
    split
    next finite => exact finite
    · decide +kernel
  exact finite_or_zero _

theorem Value.coerce_hasType (v : Value) (type : ValueType) : (v.coerce type).HasType type := by
  cases type with
  | number => exact v.toNumber_finite
  | string | boolean => trivial

/-- The last declaration of an id. -/
def lastDeclared? (declarations : List Variable) (id : String) : Option Variable :=
  declarations.reverse.find? (·.id == id)

namespace Variables

/-- Every value has the form of the type of its variable. -/
def Typed (vars : Variables) : Prop := ∀ b ∈ vars.bindings, b.value.HasType b.type

/-- The variables are those that are declared, each once and with the type of its last declaration, and their
values have the form of their types. -/
structure Fits (vars : Variables) (declarations : List Variable) : Prop where
  ids : ∀ id, vars.contains id = true ↔ ∃ d ∈ declarations, d.id = id
  once : (vars.bindings.map (·.id)).Nodup
  types : ∀ id d, lastDeclared? declarations id = some d → vars.type? id = some d.type
  values : vars.Typed

variable {vars other : Variables} {declarations : List Variable}

theorem assign?_typed {id : String} {value : Value} (assigned : vars.assign? id value = some other)
    (typed : vars.Typed) : other.Typed := by
  unfold assign? at assigned
  split at assigned
  · cases assigned
    intro b member
    obtain ⟨a, before, rfl⟩ := List.mem_map.mp member
    split
    · exact Value.coerce_hasType value a.type
    · exact typed a before
  · cases assigned

/-! ### declarations -/

theorem mem_declare {bindings : List Binding} {a b : Binding} :
    a ∈ declare bindings b ↔ a = b ∨ a ∈ bindings ∧ a.id ≠ b.id := by
  unfold declare
  split
  next known =>
    obtain ⟨old, there, same⟩ := List.any_eq_true.mp known
    rw [List.mem_map]
    constructor
    · rintro ⟨c, member, rfl⟩
      by_cases mine : c.id = b.id
      · simp [mine]
      · simp [mine, member]
    · -- a new binding takes the place of the old one of its name
      rintro (rfl | ⟨member, others⟩)
      · exact ⟨old, there, if_pos same⟩
      · exact ⟨a, member, if_neg (by simpa using others)⟩
  next unknown =>
    have absent : ∀ c ∈ bindings, c.id ≠ b.id := by simpa using unknown
    rw [List.mem_append, List.mem_singleton]
    constructor
    · rintro (member | rfl)
      · exact .inr ⟨member, absent a member⟩
      · exact .inl rfl
    · rintro (rfl | ⟨member, _⟩)
      · exact .inr rfl
      · exact .inl member

private theorem declare_once {bindings : List Binding} (b : Binding)
    (once : (bindings.map (·.id)).Nodup) : ((declare bindings b).map (·.id)).Nodup := by
  unfold declare
  split
  next known =>
    -- the binding that is replaced has the same id
    have same : (bindings.map fun a => if a.id == b.id then b else a).map (·.id) = bindings.map (·.id) := by
      rw [List.map_map]
      apply List.map_congr_left
      intro a _
      by_cases mine : a.id = b.id <;> simp [mine]
    rw [same]
    exact once
  next unknown =>
    rw [List.map_append]
    refine List.nodup_append.mpr ⟨once, List.nodup_singleton _, ?_⟩
    simpa using unknown

theorem ofDeclarations_snoc (declarations : List Variable) (d : Variable) :
    (ofDeclarations (declarations ++ [d])).bindings =
      declare (ofDeclarations declarations).bindings ⟨d.id, d.type, d.initial.coerce d.type⟩ := by
  simp only [ofDeclarations, List.foldl_append, List.foldl_cons, List.foldl_nil]

theorem lastDeclared?_snoc (declarations : List Variable) (d : Variable) (id : String) :
    lastDeclared? (declarations ++ [d]) id = if d.id = id then some d else lastDeclared? declarations id := by
  by_cases same : d.id = id <;> simp [lastDeclared?, same]

/-- The variables of a scope are the last declarations of their ids, with their initial values. -/
theorem mem_ofDeclarations {b : Binding} : b ∈ (ofDeclarations declarations).bindings ↔
    ∃ d, lastDeclared? declarations b.id = some d ∧ b = ⟨d.id, d.type, d.initial.coerce d.type⟩ := by
  induction declarations using List.reverseRecOn with
  | nil => simp [ofDeclarations, lastDeclared?]
  | append_singleton declarations last ih =>
    rw [ofDeclarations_snoc, mem_declare, ih]
    simp only [lastDeclared?_snoc]
    constructor
    · rintro (rfl | ⟨⟨d, found, same⟩, others⟩)
      · exact ⟨last, if_pos rfl, rfl⟩
      · exact ⟨d, (if_neg (Ne.symm others)).trans found, same⟩
    · rintro ⟨d, found, same⟩
      split at found
      next mine =>
        cases found
        exact .inl same
      next others => exact .inr ⟨⟨d, found, same⟩, Ne.symm others⟩

/-- Of declarations of one name, one binding is left. -/
theorem ofDeclarations_once (declarations : List Variable) :
    ((ofDeclarations declarations).bindings.map (·.id)).Nodup := by
  induction declarations using List.reverseRecOn with
  | nil => exact List.nodup_nil
  | append_singleton declarations last ih =>
    rw [ofDeclarations_snoc]
    exact declare_once _ ih

theorem ofDeclarations_typed (declarations : List Variable) : (ofDeclarations declarations).Typed := by
  intro b member
  obtain ⟨d, _, rfl⟩ := mem_ofDeclarations.mp member
  exact Value.coerce_hasType d.initial d.type

private theorem lastDeclared?_isSome {id : String} :
    (∃ d, lastDeclared? declarations id = some d) ↔ ∃ d ∈ declarations, d.id = id := by
  rw [← Option.isSome_iff_exists, lastDeclared?, List.find?_isSome]
  simp

/-- What is declared, and nothing else, is there. -/
theorem ofDeclarations_contains_iff {id : String} :
    (ofDeclarations declarations).contains id = true ↔ ∃ d ∈ declarations, d.id = id := by
  rw [← lastDeclared?_isSome, Variables.contains, List.any_eq_true]
  constructor
  · rintro ⟨b, member, same⟩
    obtain ⟨d, found, _⟩ := mem_ofDeclarations.mp member
    exact ⟨d, eq_of_beq same ▸ found⟩
  · rintro ⟨d, found⟩
    have mine : d.id = id := by simpa using List.find?_some found
    refine ⟨⟨d.id, d.type, d.initial.coerce d.type⟩, ?_, by simpa using mine⟩
    exact mem_ofDeclarations.mpr ⟨d, mine.symm ▸ found, rfl⟩

/-- Variables like the declared ones, with values of their types, fit the declarations. -/
theorem Like.fits (alike : vars.Like (ofDeclarations declarations)) (typed : vars.Typed) :
    vars.Fits declarations := by
  have ids : vars.bindings.map (·.id) = (ofDeclarations declarations).bindings.map (·.id) := by
    have firsts := congrArg (List.map Prod.fst) alike
    simpa [List.map_map, Function.comp_def] using firsts
  have types : ∀ a ∈ vars.bindings, ∃ b ∈ (ofDeclarations declarations).bindings,
      b.id = a.id ∧ b.type = a.type := by
    intro a member
    have listed : (a.id, a.type) ∈ (ofDeclarations declarations).bindings.map fun x => (x.id, x.type) :=
      alike ▸ List.mem_map_of_mem (f := fun x : Binding => (x.id, x.type)) member
    obtain ⟨b, there, same⟩ := List.mem_map.mp listed
    exact ⟨b, there, congrArg Prod.fst same, congrArg Prod.snd same⟩
  have known : ∀ id, vars.contains id = true ↔ ∃ d ∈ declarations, d.id = id := by
    intro id
    rw [alike.contains, ofDeclarations_contains_iff]
  refine ⟨known, ids ▸ ofDeclarations_once declarations, fun id d found => ?_, typed⟩
  -- the variable of the id is there, and it has the type of one that is declared
  have listed : ∃ d ∈ declarations, d.id = id := lastDeclared?_isSome.mp ⟨d, found⟩
  obtain ⟨a, binding⟩ : ∃ a, vars.binding? id = some a := by
    rw [← Option.isSome_iff_exists, binding?, List.find?_isSome]
    simpa [Variables.contains] using (known id).mpr listed
  have mine : a.id = id := by simpa using List.find?_some binding
  obtain ⟨b, there, sameId, sameType⟩ := types a (List.mem_of_find?_eq_some binding)
  obtain ⟨d', found', rfl⟩ := mem_ofDeclarations.mp there
  dsimp only at sameId sameType found'
  rw [sameId, mine, found] at found'
  cases found'
  rw [type?, binding, Option.map_some, sameType]

end Variables

/-! ### worlds -/

/-- Every stored value, global or of an instance, has the form of the type of its variable. -/
structure World.Typed {τ : Type} (w : World τ) : Prop where
  globals : w.globals.Typed
  locals : ∀ i ∈ w.instances, i.locals.Typed

namespace World

variable {τ : Type} {w w' : World τ}

/-- What assigns to no variable stores nothing. -/
theorem Typed.mapped (typed : w.Typed) {f : Instance τ → Instance τ} (globals : w'.globals = w.globals)
    (instances : w'.instances = w.instances.map f) (same : ∀ i : Instance τ, (f i).locals = i.locals) :
    w'.Typed := by
  refine ⟨globals ▸ typed.globals, fun j member => ?_⟩
  rw [instances] at member
  obtain ⟨i, before, rfl⟩ := List.mem_map.mp member
  exact same i ▸ typed.locals i before

private theorem Typed.modify (typed : w.Typed) {id : Nat} {f : Instance τ → Instance τ}
    (same : ∀ i : Instance τ, (f i).locals = i.locals) : (w.modify id f).Typed := by
  refine typed.mapped rfl rfl fun i => ?_
  split
  · exact same i
  · rfl

private theorem Typed.assign (typed : w.Typed) {actor : Nat} {r : VariableRef} {value : Value}
    (assigned : w.assign actor r value = .ok w') : w'.Typed := by
  obtain ⟨scope, id⟩ := r
  unfold World.assign at assigned
  split at assigned
  · cases assigned
  next vars looked =>
    obtain ⟨old, found, changed⟩ := Option.bind_eq_some_iff.mp looked
    -- the variables of the project are stored in the world, those of an object in its instance
    cases scope with
    | global =>
      cases assigned
      cases found
      exact ⟨Variables.assign?_typed changed typed.globals, typed.locals⟩
    | object =>
      cases assigned
      obtain ⟨own, present, rfl⟩ := Option.map_eq_some_iff.mp found
      have stored := Variables.assign?_typed changed (typed.locals own (instance?_some present).1)
      refine ⟨typed.globals, fun j member => ?_⟩
      obtain ⟨i, before, rfl⟩ := List.mem_map.mp member
      split
      · exact stored
      · exact typed.locals i before

private theorem Typed.given {α : Type} (typed : w.Typed) {looked : Except Dangling α}
    {go : α → World τ × Flow τ} (found : ∀ a, looked = .ok a → (go a).1.Typed) :
    (w.given looked go).1.Typed :=
  given_cases (P := fun r => r.1.Typed) (fun _ _ => typed) found

private theorem Typed.askForRoom (typed : w.Typed) (room : String) (transition : TransitionKind) :
    (w.askForRoom room transition).1.Typed := by
  unfold World.askForRoom
  split
  · exact typed
  · exact ⟨typed.globals, typed.locals⟩

private theorem Typed.destroy (typed : w.Typed) (id : Nat) : (w.destroy id).Typed := by
  refine typed.mapped rfl rfl fun i => ?_
  split <;> rfl

/-- Whatever is created has its initial values. -/
theorem Creates.typed {created : List (Instance τ)} (creates : w.Creates created w')
    (globals : w'.globals = w.globals) (typed : w.Typed) : w'.Typed := by
  refine ⟨globals ▸ typed.globals, fun i member => ?_⟩
  rcases List.mem_append.mp (creates.instances i member) with old | new
  · exact typed.locals i old
  · obtain ⟨o, _, initial⟩ := (creates.new i new).locals
    exact initial ▸ Variables.ofDeclarations_typed o.declarations

variable [Scalar τ] {v : Invocation}

/-- An action keeps every value of its declared type. -/
theorem perform_typed (typed : w.Typed) (v : Invocation) (action : Action) :
    (w.perform v action).1.Typed := by
  cases action with
  | move _ _ | setVelocity _ _ | rotate _ | teleport _ _ =>
    exact typed.given fun _ _ => typed.modify fun _ => rfl
  | moveToward _ _ _ => exact typed.given fun _ _ => typed.given fun _ _ => typed.modify fun _ => rfl
  | clampToRoom => exact typed.modify fun _ => rfl
  | destroySelf => exact typed.destroy v.actor
  | destroyOther =>
    simp only [perform]
    split
    · split
      · exact typed.destroy _
      · exact typed
    · exact typed
  | spawnObject _ _ _ _ =>
    simp only [perform]
    split
    · exact typed
    · exact typed.given fun _ _ => ⟨typed.globals, typed.locals⟩
  | changeScore _ | message _ _ | wait _ => exact typed.given fun _ _ => ⟨typed.globals, typed.locals⟩
  | endGame _ | playSound _ | emitCustomEvent _ => exact ⟨typed.globals, typed.locals⟩
  | changeVariable _ _ _ =>
    exact typed.given fun _ _ => typed.given fun _ _ => typed.given fun _ assigned => typed.assign assigned
  | randomizeVariable _ _ _ integer =>
    refine typed.given fun low _ => typed.given fun high _ => ?_
    dsimp only
    -- a draw changes the generator only
    generalize w.random.draw low high integer = drawing
    obtain ⟨drawn, random⟩ := drawing
    have drew : World.Typed { w with random := random } := ⟨typed.globals, typed.locals⟩
    exact drew.given fun _ assigned => drew.assign assigned
  | copyVariable _ _ => exact typed.given fun _ _ => typed.given fun _ assigned => typed.assign assigned
  | goToRoom _ _ => exact typed.askForRoom _ _
  | restartRoom _ =>
    simp only [perform]
    split
    · exact typed
    · exact typed.askForRoom _ _

private theorem act_typed (typed : w.Typed) {action : Action} {flow : Flow τ}
    (acted : w.act v action = (w', flow)) : w'.Typed := by
  have performed := perform_typed typed v action
  unfold act at acted
  -- the journal has no variables
  split at acted
  next same =>
    cases acted
    rw [same] at performed
    exact performed
  next same =>
    cases acted
    rw [same] at performed
    exact ⟨performed.globals, performed.locals⟩

private theorem Strode.typed {frames : List Frame} {stride : Stride τ} (strode : Strode v w frames w' stride)
    (typed : w.Typed) : w'.Typed := by
  cases strode with
  | done | leave _ | skip _ _ | dangle _ _ _ | enter _ _ _ _ => exact typed
  | act _ _ acted | suspend _ _ acted | halt _ _ acted | fail _ _ acted => exact act_typed typed acted

end World

theorem Moment.Moved.typed {τ : Type} [Scalar τ] {m next : Moment τ} (moved : Moved m next)
    (typed : m.world.Typed) : next.world.Typed := by
  cases moved with
  | walk strode | halt strode | fail strode => exact strode.typed typed
  | park strode =>
    refine (strode.typed typed).mapped rfl rfl fun i => ?_
    split <;> rfl
  | create =>
    refine typed.mapped rfl rfl fun i => ?_
    split <;> rfl
  | step taken =>
    rcases World.takeDue_cases taken with ⟨_, rfl, _⟩ | ⟨_, _, _, rfl⟩
    · exact typed
    · refine typed.mapped rfl rfl fun i => ?_
      split <;> rfl
  | stepped =>
    refine typed.mapped rfl rfl fun i => ?_
    split <;> rfl
  | handle _ _ taken =>
    subst taken
    exact ⟨typed.globals, typed.locals⟩
  -- a commit and a change of room may add instances, with the variables of their objects
  | @commit w _ =>
    obtain ⟨created, creates⟩ := w.commit_creates
    exact creates.typed w.commit_sameRun.globals typed
  | @transition w _ _ | @transitionFailed w _ _ =>
    obtain ⟨created, creates⟩ := w.stepTransition_creates
    exact creates.typed w.stepTransition_sameRun.globals typed
  | @request w _ _ | @requestFailed w _ _ =>
    obtain ⟨created, creates⟩ := w.followRequest_creates
    exact creates.typed w.followRequest_sameRun.globals typed
  | finish _ | pass _ | drop _ | start _ _ | resume _ _ | created | collided | handled _ | close =>
    exact ⟨typed.globals, typed.locals⟩

namespace World

variable {τ : Type} [Scalar τ] {w w' : World τ}

theorem Becomes.typed (becomes : w.Becomes w') (typed : w.Typed) : w'.Typed := by
  cases becomes with
  | aside _ _ | opened _ => exact ⟨typed.globals, typed.locals⟩
  | stopped => exact typed.mapped rfl rfl fun _ => rfl
  | moved _ moved same => exact moved.typed (same ▸ typed)

/-- A world of a run of a project, with the variables that are declared and values of their types. -/
structure RunOf (project : Project) (program : Program) (w : World τ) : Prop where
  project : w.project = project
  program : w.program = program
  declared : w.Declared
  typed : w.Typed

theorem Becomes.runOf {project : Project} {program : Program} (becomes : w.Becomes w')
    (run : w.RunOf project program) : w'.RunOf project program where
  project := becomes.sameProgram.1.trans run.project
  program := becomes.sameProgram.2.trans run.program
  declared := becomes.declared run.declared
  typed := becomes.typed run.typed

theorem tick_typed (w : World τ) (delta : τ) (typed : w.Typed) : (w.tick delta).world.Typed := by
  obtain ⟨last, inside, world, _⟩ := Moment.tick_passes w delta
  rw [← world]
  refine inside.invariant (P := fun m => m.world.Typed) ?_ Moment.Moved.typed
  rw [Moment.begin_world]
  exact ⟨typed.globals, typed.locals⟩

end World

namespace Game

variable {τ : Type} [Scalar τ]

theorem kept_typed : Kept fun w : World τ => w.Typed where
  initial _ _ := ⟨nofun, nofun⟩
  enter w project program room _ := by
    obtain ⟨created, creates⟩ := (loaded w project program).enterRoom_creates room
    apply creates.typed (World.enterRoom_sameRun _ _).globals
    exact ⟨Variables.ofDeclarations_typed project.declarations, nofun⟩
  run _ typed := ⟨typed.globals, typed.locals⟩
  tick w delta _ typed := w.tick_typed delta typed
  stop _ typed := typed.mapped rfl rfl fun _ => rfl
  keys _ _ typed := ⟨typed.globals, typed.locals⟩
  sounds _ typed := ⟨typed.globals, typed.locals⟩

/-- A start that succeeds has compiled the project. -/
theorem start_compiles {g : Game τ} {project : Project} {room : String}
    (succeeds : (g.start project room).2 = none) :
    (g.start project room).1.world.project = project ∧
      Program.compile project g.world.settings.spriteSize = .ok (g.start project room).1.world.program := by
  obtain ⟨program, w, compiled, entered, same⟩ := start_enters succeeds
  have run := World.enterRoom_sameRun (loaded g.world project program) room
  rw [entered] at run
  rw [same]
  exact ⟨run.project, compiled.trans (congrArg Except.ok run.program.symm)⟩

/-- Variables never leave their types. Take any project, started with success after whatever calls, and any
instant of its run. The global variables are those that the project declares and those of an instance are
those that its compiled object declares, each once and with the type of its last declaration, and every value
has the form of its type. From this instant on, no variable is added or removed, and none changes its type. -/
theorem variables_keep_types (settings : Settings) (calls : List (HostCall Float)) (project : Project)
    (room : String) (p : Instant Float) :
    let g : Game Float := (new settings).after calls
    (g.start project room).2 = none → Instant.Later (.between (g.start project room).1) p →
      p.world.project = project ∧ Program.compile project settings.spriteSize = .ok p.world.program ∧
      p.world.globals.Fits project.declarations ∧
      (∀ i ∈ p.world.instances, ∃ o, p.world.program.object? i.object = some o ∧
        i.locals.Fits o.declarations) ∧
      ∀ q, Instant.Later p q → q.world.globals.Like p.world.globals ∧
        ∀ i ∈ p.world.instances, ∀ j ∈ q.world.instances, j.id = i.id → j.locals.Like i.locals := by
  intro g succeeds later
  obtain ⟨sameProject, compiled⟩ := start_compiles succeeds
  rw [after_settings] at compiled
  let started := (g.start project room).1
  have reached : started = (new settings).after (calls ++ [.start project room]) := by
    rw [after_append]
    rfl
  have coherent : started.world.Coherent := reached ▸ after_coherent settings _
  have first : started.world.RunOf project started.world.program := by
    refine ⟨sameProject, rfl, ?_, ?_⟩
    · exact reached ▸ after_declared settings _
    · exact reached ▸ after_world kept_typed settings _
  have within : p.world.RunOf project started.world.program := later.keeps coherent first World.Becomes.runOf
  have arranged : p.Coherent := later.coherent coherent
  refine ⟨within.project, within.program ▸ compiled, ?_, fun i member => ?_, fun q onward => ⟨?_, ?_⟩⟩
  · exact (within.project ▸ within.declared.globals).fits within.typed.globals
  · obtain ⟨o, found⟩ := Option.isSome_iff_exists.mp (arranged.at_world.instances i member).object
    exact ⟨o, found, (within.declared.locals i member o found).fits (within.typed.locals i member)⟩
  · have after := onward.keeps arranged within World.Becomes.runOf
    have declared := within.project ▸ within.declared.globals
    exact (after.project ▸ after.declared.globals).trans declared.symm
  · intro i member j member' same
    have after := onward.keeps arranged within World.Becomes.runOf
    obtain ⟨created, carries⟩ := onward.carries arranged
    -- an instance with this id is the same one, and so of the same object
    obtain ⟨i', before, persists⟩ :=
      carries.before member' (same ▸ (arranged.at_world.instances i member).given)
    have only : i' = i :=
      List.inj_on_of_nodup_map arranged.at_world.ids before member (persists.id.symm.trans same)
    subst only
    obtain ⟨o, found⟩ := Option.isSome_iff_exists.mp (arranged.at_world.instances i' member).object
    have found' : q.world.program.object? j.object = some o := by
      rw [after.program, ← within.program, persists.object]
      exact found
    exact (after.declared.locals j member' o found').trans (within.declared.locals i' member o found).symm

/-- The label is declared twice, and neither the total nor the share starts with a value of its type. The cat
divides by zero, multiplies beyond all numbers and copies a number to a label that is a truth value. -/
def sloppy : Project where
  version := 1
  declarations := [⟨"total", "Total", .number, .text "many"⟩, ⟨"label", "Label", .string, .number 7⟩,
    ⟨"label", "Label", .boolean, .text "true"⟩]
  objects := [⟨"cat", "Cat", none, some 1, some 1, false, [⟨"share", "Share", .number, .bool true⟩],
    [⟨.step, .act (.changeVariable ⟨.global, "total"⟩ .divide (.literal (.number 0)))
      (.act (.changeVariable ⟨.object, "share"⟩ .add (.literal (.number 1e308)))
        (.act (.changeVariable ⟨.object, "share"⟩ .multiply (.literal (.text "10")))
          (.act (.copyVariable ⟨.object, "share"⟩ ⟨.global, "label"⟩) .done)))⟩]⟩]
  rooms := [⟨"room", "Room", 10, 10, [⟨"bed", "cat", 0, 0, none⟩]⟩]
  sprites := []
  sounds := []

/-- After a tick the total and the share are zero, and the label is false. -/
theorem variables_keep_types_sloppy :
    let g : Game Float := (new .default).after []
    let started := (g.start sloppy "room").1
    let p : Instant Float := .between (started.tick 16).1
    (g.start sloppy "room").2 = none ∧ Instant.Later (.between started) p ∧
      started.world.globals.toSorted = [("label", .bool true), ("total", .number 0)] ∧
      p.world.globals.toSorted = [("label", .bool false), ("total", .number 0)] ∧
      p.world.instances.map (·.locals.toSorted) = [[("share", .number 0)]] ∧
      p.world.globals.Fits sloppy.declarations ∧
      ∀ i ∈ p.world.instances, ∃ o, p.world.program.object? i.object = some o ∧
        i.locals.Fits o.declarations := by
  intro g started p
  have succeeds : (g.start sloppy "room").2 = none := by decide +kernel
  have plays : started.Plays 16 := by decide +kernel
  have later : Instant.Later (.between started) p := Instant.later_tick plays
  obtain ⟨_, _, globals, locals, _⟩ := variables_keep_types .default [] sloppy "room" p succeeds later
  refine ⟨succeeds, later, ?_, ?_, ?_, globals, locals⟩
  · decide +kernel
  · decide +kernel
  · decide +kernel

end Game

end Gameplay
