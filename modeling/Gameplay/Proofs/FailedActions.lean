import Gameplay.Proofs.Compilation
import Gameplay.Proofs.Typing

/-!
# Actions that fail

An action fails iff something that it names is not declared where it is looked up, and its error is the first
such name in the order of the look-ups. An action that fails has changed nothing but the random generator.

## Main results

`perform_answers`: in a world where names are known, every action answers for what it names.
`action_fails_iff_dangling`: this at every instant of a run.

## Proof strategy

An action is a chain of look-ups with one change at its end. `Answers` says of a result that it is a refusal by
the first name that does not resolve, with the world as it was, or none at all; a look-up before it adds its
names in front (`Answers.given`). Each action is then the chain of its look-ups.
-/

namespace Gameplay

/-! ### what an action names -/

/-- The name of the variable that a reference is to. -/
def VariableRef.name (r : VariableRef) : Dangling := .variable r.scope r.id

def Operand.names : Operand → List Dangling
  | .variable r => [r.name]
  | .literal _ => []
  | .key _ _ => []

/-- What an action names, in the order in which it is looked up. -/
def Action.names : Action → List Dangling
  | .move x y => x.names ++ y.names
  | .setVelocity x y => x.names ++ y.names
  | .teleport x y => x.names ++ y.names
  | .moveToward x y speed => x.names ++ y.names ++ speed.names
  | .rotate degrees => degrees.names
  | .changeScore delta => delta.names
  | .wait duration => duration.names
  | .message _ duration => (duration.map Operand.names).getD []
  | .spawnObject id x y _ => .object id :: (x.names ++ y.names)
  | .changeVariable target _ value => target.name :: value.names
  | .randomizeVariable target min max _ => min.names ++ (max.names ++ [target.name])
  | .copyVariable source target => [source.name, target.name]
  | .goToRoom id _ => [.room id]
  | .clampToRoom | .destroySelf | .destroyOther | .endGame _ | .playSound _ => []
  | .restartRoom _ | .emitCustomEvent _ => []

/-- A name resolves for an instance if it is declared. A variable of object scope is one that is declared for
the object of the instance; all else is declared by the project. -/
def World.Resolves {τ : Type} (w : World τ) (actor : Nat) : Dangling → Prop
  | .variable .object id => ∃ i ∈ w.instances, i.id = actor ∧
      ∃ o, w.project.objects[i.object]? = some o ∧ ∃ d ∈ o.declarations, d.id = id
  | name => w.project.Resolves name

namespace World

variable {τ : Type} {w : World τ} {actor : Nat} {P : Dangling → Prop}

/-! ### worlds in which names are known -/

/-- The names of which something holds are those that can be looked up in a world. The room that is played is
one of them. -/
structure Knows (P : Dangling → Prop) (actor : Nat) (w : World τ) : Prop where
  reference : ∀ r, P (VariableRef.name r) ↔ w.Sees actor r
  object : ∀ id, P (.object id) ↔ (w.program.objectIndex? id).isSome
  room : ∀ id, P (.room id) ↔ (w.project.room? id).isSome
  current : ∀ r, w.room = some r → P (.room r.id)

private theorem resolves_global (declared : w.Declared) {id : String} :
    w.Resolves actor (.variable .global id) ↔ w.Sees actor ⟨.global, id⟩ := by
  have known : w.globals.contains id = true ↔ ∃ d ∈ w.project.declarations, d.id = id := by
    rw [declared.globals.contains, Variables.ofDeclarations_contains_iff]
  constructor
  · intro resolves
    exact ⟨w.globals, rfl, known.mpr resolves⟩
  · rintro ⟨vars, found, there⟩
    cases found
    exact known.mp there

private theorem resolves_local (coherent : w.Coherent) (declared : w.Declared) {id : String} :
    w.Resolves actor (.variable .object id) ↔ w.Sees actor ⟨.object, id⟩ := by
  constructor
  · rintro ⟨i, member, rfl, o, definition, known⟩
    exact declared.sees coherent ⟨i, member, rfl, rfl⟩ definition known
  · rintro ⟨vars, found, there⟩
    obtain ⟨i, present, rfl⟩ := Option.map_eq_some_iff.mp found
    obtain ⟨member, mine⟩ := instance?_some present
    obtain ⟨c, compiled⟩ := Option.isSome_iff_exists.mp (coherent.instances i member).object
    obtain ⟨o, definition, same⟩ := coherent.definition compiled
    rw [(declared.locals i member c compiled).contains, same, Variables.ofDeclarations_contains_iff] at there
    exact ⟨i, member, mine, o, definition, there⟩

/-- In a world of a run, what resolves is what can be looked up. -/
theorem Declared.knows (declared : w.Declared) (coherent : w.Coherent) (actor : Nat) :
    w.Knows (w.Resolves actor) actor where
  reference := by
    rintro ⟨scope, id⟩
    cases scope with
    | global => exact resolves_global declared
    | object => exact resolves_local coherent declared
  object id := by
    obtain ⟨size, compiled⟩ := coherent.compiled
    rw [Program.compile_object compiled]
    exact Project.resolves_object
  room id := by simp [Resolves, Project.Resolves, Project.room?]
  current r entered := by
    have known := declared.room r entered
    simpa [Resolves, Project.Resolves, Project.room?] using known

/-! ### look-ups -/

theorem lookup_unseen {r : VariableRef} (unseen : ¬ w.Sees actor r) : w.lookup actor r = .error r.name := by
  have missing : (w.scope? actor r.scope).bind (·.binding? r.id) = none := by
    apply Option.bind_eq_none_iff.mpr
    intro vars found
    apply List.find?_eq_none.mpr
    intro b member same
    exact unseen ⟨vars, found, List.any_eq_true.mpr ⟨b, member, same⟩⟩
  simp only [lookup, missing, VariableRef.name]

/-- To assign to a variable that is not seen fails with its name. -/
theorem assign_unseen {r : VariableRef} (unseen : ¬ w.Sees actor r) (value : Value) :
    w.assign actor r value = .error r.name := by
  have missing : (w.scope? actor r.scope).bind (·.assign? r.id value) = none := by
    apply Option.bind_eq_none_iff.mpr
    intro vars found
    exact if_neg fun there => unseen ⟨vars, found, there⟩
  simp only [assign, missing, VariableRef.name]

namespace Knows

variable (known : w.Knows P actor)

include known

theorem lookup (r : VariableRef) : Resolved P [r.name] (w.lookup actor r) := by
  apply Resolved.single
  · intro has
    exact lookup_sees ((known.reference r).mp has)
  · intro hasNot
    exact lookup_unseen fun sees => hasNot ((known.reference r).mpr sees)

theorem assign (r : VariableRef) (value : Value) : Resolved P [r.name] (w.assign actor r value) := by
  apply Resolved.single
  · intro has
    exact assign_sees ((known.reference r).mp has) value
  · intro hasNot
    exact assign_unseen (fun sees => hasNot ((known.reference r).mpr sees)) value

/-- An operand looks up the variable that it names, if it names one. -/
theorem resolve : ∀ o : Operand, Resolved P o.names (w.resolve actor o)
  | .literal value => .pure value
  | .variable r => (known.lookup r).map (·.value)
  | .key name state => .pure (Value.bool (w.keys.query name state))

theorem number (o : Operand) : Resolved P o.names (w.number actor o) := (known.resolve o).map Value.toNumber

theorem point (x y : Operand) : Resolved P (x.names ++ y.names) (w.point actor x y) := by
  apply (known.number x).bind
  intro a _
  exact (known.number y).map fun b => Vec.mk (narrow a) (narrow b)

end Knows

end World

/-! ### what an action gives -/

/-- How an action came out, as a look-up. -/
def Flow.outcome {τ : Type} : Flow τ → Except Dangling Unit
  | .fail cause => .error cause
  | .next => .ok ()
  | .suspend _ => .ok ()
  | .halt => .ok ()

theorem Flow.outcome_error {τ : Type} {flow : Flow τ} {cause : Dangling} :
    flow.outcome = .error cause ↔ flow = .fail cause := by
  cases flow <;> simp [outcome]

namespace World

variable {τ : Type} {w : World τ} {actor : Nat} {P : Dangling → Prop} {names more : List Dangling}

/-- A result answers for names: it is a refusal by the first of them that does not resolve, with the world as
it was but for the random generator, or no refusal if all resolve. -/
structure Answers (P : Dangling → Prop) (names : List Dangling) (w : World τ) (r : World τ × Flow τ) : Prop where
  resolved : Resolved P names r.2.outcome
  kept : ∀ cause, r.2 = .fail cause → ∃ random, r.1 = { w with random := random }

namespace Answers

variable {α : Type} {r : World τ × Flow τ} {looked : Except Dangling α} {go : α → World τ × Flow τ}

theorem done (unfailed : r.2.outcome = .ok ()) : Answers P [] w r where
  resolved := by
    rw [unfailed]
    exact .pure ()
  kept cause failed := by
    rw [failed] at unfailed
    cases unfailed

theorem refused {name : Dangling} (hasNot : ¬ P name) : Answers P (name :: names) w (w, .fail name) where
  resolved := .here hasNot
  kept _ _ := ⟨w.random, rfl⟩

/-- A look-up comes first, and then what is done with what it finds. -/
theorem given (first : Resolved P names looked) (rest : ∀ a, looked = .ok a → Answers P more w (go a)) :
    Answers P (names ++ more) w (w.given looked go) where
  resolved := by
    -- what comes out of the chain is the chain of what comes out
    have chained : (w.given looked go).2.outcome = looked >>= fun a => (go a).2.outcome := by
      cases looked <;> rfl
    rw [chained]
    exact first.bind fun a found => (rest a found).resolved
  kept := by
    cases looked with
    | ok a => exact (rest a rfl).kept
    | error cause => exact fun _ _ => ⟨w.random, rfl⟩

/-- A look-up comes first, and what follows looks up nothing new. -/
theorem last (first : Resolved P names looked) (rest : ∀ a, looked = .ok a → Answers P [] w (go a)) :
    Answers P names w (w.given looked go) := by
  have both := given first rest
  rwa [List.append_nil] at both

/-- A name that resolves may come first. -/
theorem cons {name : Dangling} (has : P name) (answers : Answers P names w r) : Answers P (name :: names) w r where
  resolved := answers.resolved.cons has
  kept := answers.kept

/-- Where all names are known to resolve, nothing is refused. -/
theorem settled (has : ∀ name ∈ names, P name) (answers : Answers P names w r) : Answers P [] w r := by
  obtain ⟨_, unfailed⟩ := answers.resolved.ok_iff.mpr has
  exact done unfailed

/-- What is drawn meanwhile may be lost. -/
theorem drawn {random : Random} (answers : Answers P names { w with random := random } r) :
    Answers P names w r where
  resolved := answers.resolved
  kept cause failed := answers.kept cause failed

end Answers

/-- A change of the room looks up the room, and fails if it is not declared. -/
theorem askForRoom_answers (known : w.Knows P actor) (id : String) (transition : TransitionKind) :
    Answers P [.room id] w (w.askForRoom id transition) := by
  unfold askForRoom
  split
  next unknown =>
    apply Answers.refused
    rw [known.room, unknown]
    exact Bool.false_ne_true
  next room declared =>
    refine ⟨?_, nofun⟩
    apply Resolved.single
    · exact fun _ => ⟨(), rfl⟩
    · intro hasNot
      exact absurd ((known.room id).mpr (by rw [declared]; rfl)) hasNot

variable [Scalar τ]

/-- Every action answers for what it names. -/
theorem perform_answers {v : Invocation} (known : w.Knows P v.actor) (action : Action) :
    Answers P action.names w (w.perform v action) := by
  cases action with
  | move x y | setVelocity x y | teleport x y => exact .last (known.point x y) fun _ _ => .done rfl
  | rotate o | changeScore o | wait o => exact .last (known.number o) fun _ _ => .done rfl
  | moveToward x y speed =>
    exact .given (known.point x y) fun _ _ => .last (known.number speed) fun _ _ => .done rfl
  | clampToRoom | destroySelf | endGame _ | playSound _ | emitCustomEvent _ => exact .done rfl
  | destroyOther =>
    apply Answers.done
    simp only [perform]
    split <;> rfl
  | spawnObject id x y relative =>
    simp only [perform]
    split
    next unknown =>
      apply Answers.refused
      rw [known.object, unknown]
      exact Bool.false_ne_true
    next object found =>
      have has : P (.object id) := (known.object id).mpr (by rw [found]; rfl)
      exact .cons has (.last (known.point x y) fun _ _ => .done rfl)
  | message text duration =>
    cases duration with
    | none => exact .done rfl
    | some o => exact .last (known.number o) fun _ _ => .done rfl
  | changeVariable target op value =>
    apply Answers.given (known.lookup target)
    intro current found
    apply Answers.last (known.resolve value)
    intro operand _
    -- the target has just been looked up, so the assignment finds it
    have has := (known.lookup target).ok_iff.mp ⟨current, found⟩
    exact .settled has (.last (known.assign target _) fun _ _ => .done rfl)
  | randomizeVariable target min max integer =>
    apply Answers.given (known.number min)
    intro low _
    apply Answers.given (known.number max)
    intro high _
    dsimp only
    generalize w.random.draw low high integer = drawing
    obtain ⟨drawn, random⟩ := drawing
    -- the draw comes before the look-up of the target, and changes no name
    have drew : World.Knows P v.actor { w with random := random } :=
      ⟨known.reference, known.object, known.room, known.current⟩
    exact .drawn (.last (drew.assign target _) fun _ _ => .done rfl)
  | copyVariable source target =>
    exact .given (known.lookup source) fun _ _ => .last (known.assign target _) fun _ _ => .done rfl
  | goToRoom id transition => exact askForRoom_answers known id transition
  | restartRoom transition =>
    simp only [perform]
    split
    · exact .done rfl
    next room entered =>
      have has : ∀ name ∈ [Dangling.room room.id], P name :=
        List.forall_mem_singleton.mpr (known.current room entered)
      exact .settled has (askForRoom_answers known room.id transition)

end World

namespace Game

variable {τ : Type} [Scalar τ]

/-- An action fails on a dangling reference and on nothing else, and then it does nothing. At any instant of a
run, for any invocation and any action: the action fails iff something that it names does not resolve; its error
is the first such name, in the order in which it looks them up; and the world of a failed action is the one
before it, but for the random generator. -/
theorem action_fails_iff_dangling (settings : Settings) (calls : List (HostCall τ)) (p : Instant τ) :
    Instant.Later (.between ((new settings).after calls)) p → ∀ (v : Invocation) (action : Action),
      let w := p.world
      let performed := w.perform v action
      ((∃ cause, performed.2 = .fail cause) ↔ ∃ name ∈ action.names, ¬ w.Resolves v.actor name) ∧
        (∀ cause, performed.2 = .fail cause ↔ FirstWithout (w.Resolves v.actor) action.names cause) ∧
        ∀ cause, performed.2 = .fail cause → ∃ random, performed.1 = { w with random := random } := by
  intro later v action w performed
  have first : ((new settings : Game τ).after calls).world.Declared := after_declared settings calls
  have arranged := after_coherent settings calls
  have declared : w.Declared := later.keeps (P := World.Declared) arranged first World.Becomes.declared
  have coherent : w.Coherent := (later.coherent arranged).at_world
  have answers : World.Answers (w.Resolves v.actor) action.names w performed :=
    World.perform_answers (declared.knows coherent v.actor) action
  refine ⟨?_, fun cause => ?_, answers.kept⟩
  · rw [← answers.resolved.fails_iff]
    simp only [performed, Flow.outcome_error]
  · rw [← answers.resolved.error_iff, Flow.outcome_error]

/-- The cat has a share and nobody has a shape. A random number for the shape is drawn in vain. -/
theorem action_fails_iff_dangling_sloppy :
    let g : Game Float := (new .default).after [.start sloppy "room"]
    let v : Invocation := ⟨1, 0, 0, none⟩
    let good : Action := .copyVariable ⟨.global, "total"⟩ ⟨.object, "share"⟩
    let bad : Action := .randomizeVariable ⟨.object, "shape"⟩ (.variable ⟨.object, "share"⟩)
      (.literal (.number 9)) true
    Instant.Later (.between g) (.between g) ∧ (∀ name ∈ good.names, g.world.Resolves 1 name) ∧
      (g.world.perform v bad).2 = .fail (.variable .object "shape") ∧
      FirstWithout (g.world.Resolves 1) bad.names (.variable .object "shape") ∧
      (∃ random, (g.world.perform v bad).1 = { g.world with random := random }) ∧
      (g.world.perform v bad).1.random ≠ g.world.random := by
  intro g v good bad
  have fails : (g.world.perform v bad).2 = .fail (.variable .object "shape") := by decide +kernel
  have goesOn : (g.world.perform v good).2 = .next := by decide +kernel
  have later : Instant.Later (.between g) (.between g) := .refl
  have atStart := action_fails_iff_dangling .default [.start sloppy "room"] (.between g) later v
  obtain ⟨_, first, kept⟩ := atStart bad
  obtain ⟨resolves, _, _⟩ := atStart good
  refine ⟨later, fun name listed => ?_, fails, (first _).mp fails, kept _ fails, by decide +kernel⟩
  -- a name that dangled would have made the good action fail
  by_contra dangling
  obtain ⟨cause, failed⟩ := resolves.mpr ⟨name, listed, dangling⟩
  have both := failed.symm.trans goesOn
  cases both

end Game

end Gameplay
