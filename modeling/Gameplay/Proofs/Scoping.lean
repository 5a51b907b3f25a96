import Gameplay.Proofs.Declarations
import Gameplay.Proofs.ScriptEquivalence

/-!
# Well-scoped projects

A project is well scoped if it compiles and everything that its scripts and its rooms name is declared.

## Main results

`perform_succeeds`: an action fails only if something that it names is not declared.
`well_scoped_never_fails`: however a host plays a well-scoped project, no call fails.

## Proof strategy

A walk stays on paths of the events of its object, so each action that it comes to is one of a script in
scope (`Path.part`), and a declared world has the variables that are in scope (`World.Declared.sees`).
-/

namespace Gameplay

/-! ### what scripts name -/

def Operand.references : Operand → List VariableRef
  | .variable r => [r]
  | _ => []

def Condition.references (c : Condition) : List VariableRef := c.left.references ++ c.right.references

def Action.references : Action → List VariableRef
  | .move x y => x.references ++ y.references
  | .setVelocity x y => x.references ++ y.references
  | .rotate degrees => degrees.references
  | .moveToward x y speed => x.references ++ y.references ++ speed.references
  | .teleport x y => x.references ++ y.references
  | .spawnObject _ x y _ => x.references ++ y.references
  | .changeScore delta => delta.references
  | .message _ duration => (duration.map Operand.references).getD []
  | .changeVariable target _ value => target :: value.references
  | .randomizeVariable target min max _ => target :: (min.references ++ max.references)
  | .copyVariable source target => [source, target]
  | .wait duration => duration.references
  | _ => []

/-- A reference in an event of an object is to a variable of the project, or to one of that object. -/
def Project.Declares (p : Project) (o : ObjectDefinition) (r : VariableRef) : Prop :=
  match r.scope with
  | .global => ∃ d ∈ p.declarations, d.id = r.id
  | .object => ∃ d ∈ o.declarations, d.id = r.id

/-- All that an action names is declared. -/
structure Action.InScope (p : Project) (o : ObjectDefinition) (action : Action) : Prop where
  references : ∀ r ∈ action.references, p.Declares o r
  object : ∀ id x y relative, action = .spawnObject id x y relative → p.declaresObject id = true
  room : ∀ id transition, action = .goToRoom id transition → (p.room? id).isSome

/-- All that a script names is declared. -/
inductive Script.InScope (p : Project) (o : ObjectDefinition) : Script → Prop
  | done : InScope p o .done
  | act {action : Action} {rest : Script} :
      action.InScope p o → InScope p o rest → InScope p o (.act action rest)
  | branch {condition : Condition} {thens elses rest : Script} :
      (∀ r ∈ condition.references, p.Declares o r) → InScope p o thens → InScope p o elses →
      InScope p o rest → InScope p o (.branch condition thens elses rest)

/-- A project that compiles, and in which all that events and placements name is declared. -/
structure Project.WellScoped (p : Project) : Prop where
  compiles : ∃ size program, Program.compile p size = .ok program
  events : ∀ o ∈ p.objects, ∀ e ∈ o.events, e.items.InScope p o
  placements : ∀ room ∈ p.rooms, ∀ placement ∈ room.instances,
    p.declaresObject placement.objectId = true

/-- A part of a script in scope is in scope. -/
theorem Script.InScope.part {p : Project} {o : ObjectDefinition} {part script : Script}
    (within : part.Part script) (inScope : script.InScope p o) : part.InScope p o := by
  -- along the way from the whole to the part
  induction within with
  | whole => exact inScope
  | act _ ih => cases inScope with | act _ rest => exact ih rest
  | thens _ ih => cases inScope with | branch _ thens _ _ => exact ih thens
  | elses _ ih => cases inScope with | branch _ _ elses _ => exact ih elses
  | rest _ ih => cases inScope with | branch _ _ _ rest => exact ih rest

/-! ### what an action needs -/

namespace World

variable {τ : Type} {w : World τ} {actor : Nat}

/-- A reference finds a variable. -/
def Sees (w : World τ) (actor : Nat) (r : VariableRef) : Prop :=
  ∃ vars, w.scope? actor r.scope = some vars ∧ vars.contains r.id = true

theorem lookup_sees {r : VariableRef} (sees : w.Sees actor r) : ∃ b, w.lookup actor r = .ok b := by
  obtain ⟨vars, found, declared⟩ := sees
  have bound : (vars.binding? r.id).isSome :=
    List.find?_isSome.mpr (by simpa [Variables.contains] using declared)
  obtain ⟨b, same⟩ := Option.isSome_iff_exists.mp bound
  exact ⟨b, by simp [lookup, found, same]⟩

theorem assign_sees {r : VariableRef} (sees : w.Sees actor r) (value : Value) :
    ∃ w', w.assign actor r value = .ok w' := by
  obtain ⟨scope, id⟩ := r
  obtain ⟨vars, found, declared⟩ := sees
  have assigned : ((w.scope? actor scope).bind (·.assign? id value)).isSome := by
    simp [found, Variables.assign?, declared]
  obtain ⟨vars', changed⟩ := Option.isSome_iff_exists.mp assigned
  cases scope with
  | global => exact ⟨{ w with globals := vars' }, by simp only [assign, changed]⟩
  | object =>
    exact ⟨w.modify actor fun i => { i with locals := vars' }, by simp only [assign, changed]⟩

theorem resolve_sees : ∀ {o : Operand}, (∀ r ∈ o.references, w.Sees actor r) →
    ∃ value, w.resolve actor o = .ok value
  | .literal value, _ => ⟨value, rfl⟩
  | .variable r, sees => by
    obtain ⟨b, looked⟩ := lookup_sees (sees r (List.mem_singleton_self r))
    exact ⟨b.value, by simp [resolve, looked, Except.map]⟩
  | .key name state, _ => ⟨.bool (w.keys.query name state), rfl⟩

theorem number_sees {o : Operand} (sees : ∀ r ∈ o.references, w.Sees actor r) :
    ∃ n, w.number actor o = .ok n := by
  obtain ⟨value, resolved⟩ := resolve_sees sees
  exact ⟨value.toNumber, by simp [number, resolved, Except.map]⟩

theorem point_sees {x y : Operand} (sees : ∀ r ∈ x.references ++ y.references, w.Sees actor r) :
    ∃ point, w.point actor x y = .ok point := by
  obtain ⟨a, first⟩ := number_sees fun r listed => sees r (List.mem_append_left _ listed)
  obtain ⟨b, second⟩ := number_sees fun r listed => sees r (List.mem_append_right _ listed)
  exact ⟨⟨narrow a, narrow b⟩, by simp only [point, first, second, bind, Except.bind]⟩

theorem holds_sees {c : Condition} (sees : ∀ r ∈ c.references, w.Sees actor r) :
    ∃ answer, w.holds actor c = .ok answer := by
  obtain ⟨a, left⟩ := resolve_sees fun r listed => sees r (List.mem_append_left _ listed)
  obtain ⟨b, right⟩ := resolve_sees fun r listed => sees r (List.mem_append_right _ listed)
  exact ⟨a.compare c.op b, by simp only [holds, left, right, bind, Except.bind]⟩

private theorem askForRoom_succeeds {room : String} {transition : TransitionKind}
    (declared : (w.project.room? room).isSome) (cause : Dangling) :
    (w.askForRoom room transition).2 ≠ .fail cause := by
  obtain ⟨found, known⟩ := Option.isSome_iff_exists.mp declared
  simp [askForRoom, known]

variable [Scalar τ]

/-- An action does not fail if all that it names is declared. -/
theorem perform_succeeds {v : Invocation} {action : Action}
    (sees : ∀ r ∈ action.references, w.Sees v.actor r)
    (object : ∀ id x y relative, action = .spawnObject id x y relative →
      (w.program.objectIndex? id).isSome)
    (room : ∀ id transition, action = .goToRoom id transition → (w.project.room? id).isSome)
    (current : ∀ r, w.room = some r → (w.project.room? r.id).isSome) (cause : Dangling) :
    (w.perform v action).2 ≠ .fail cause := by
  cases action with
  | move x y | setVelocity x y | teleport x y =>
    obtain ⟨point, found⟩ := point_sees sees
    simp [perform, found, given]
  | rotate o | changeScore o | wait o =>
    obtain ⟨n, found⟩ := number_sees sees
    simp [perform, found, given]
  | moveToward x y speed =>
    obtain ⟨point, first⟩ := point_sees fun r listed => sees r (List.mem_append_left _ listed)
    obtain ⟨n, second⟩ := number_sees fun r listed => sees r (List.mem_append_right _ listed)
    simp [perform, first, second, given]
  | clampToRoom | destroySelf | playSound _ | endGame _ | emitCustomEvent _ => simp [perform]
  | destroyOther =>
    simp only [perform]
    split <;> simp
  | spawnObject id x y relative =>
    obtain ⟨index, declared⟩ := Option.isSome_iff_exists.mp (object id x y relative rfl)
    obtain ⟨point, found⟩ := point_sees sees
    simp [perform, declared, found, given]
  | message text duration =>
    cases duration with
    | none => simp [perform, given]
    | some o =>
      obtain ⟨n, found⟩ := number_sees sees
      simp [perform, found, given]
  | changeVariable target op value =>
    have targetSeen := sees target List.mem_cons_self
    obtain ⟨b, looked⟩ := lookup_sees targetSeen
    obtain ⟨operand, resolved⟩ := resolve_sees fun r listed => sees r (List.mem_cons_of_mem _ listed)
    obtain ⟨w', assigned⟩ := assign_sees targetSeen (b.value.change b.type op operand)
    simp [perform, looked, resolved, assigned, given]
  | randomizeVariable target min max integer =>
    obtain ⟨low, first⟩ := number_sees (o := min) fun r listed =>
      sees r (List.mem_cons_of_mem _ (List.mem_append_left _ listed))
    obtain ⟨high, second⟩ := number_sees (o := max) fun r listed =>
      sees r (List.mem_cons_of_mem _ (List.mem_append_right _ listed))
    simp only [perform, first, second, given]
    generalize w.random.draw low high integer = drawing
    obtain ⟨drawn, random⟩ := drawing
    -- the variable is assigned after the draw, which changes no scope
    have targetSeen : World.Sees { w with random := random } v.actor target :=
      sees target List.mem_cons_self
    obtain ⟨w', assigned⟩ := assign_sees targetSeen (.number drawn)
    simp [assigned]
  | copyVariable source target =>
    obtain ⟨b, looked⟩ := lookup_sees (sees source List.mem_cons_self)
    obtain ⟨w', assigned⟩ := assign_sees (sees target (by simp [Action.references])) b.value
    simp [perform, looked, assigned, given]
  | goToRoom id transition => exact askForRoom_succeeds (room id transition rfl) cause
  | restartRoom transition =>
    simp only [perform]
    split
    · simp
    next r entered => exact askForRoom_succeeds (current r entered) cause

end World

/-! ### what a declared world has -/

namespace Variables

private theorem declare_contains (bindings : List Binding) (b : Binding) (id : String) :
    (declare bindings b).any (·.id == id) = (bindings.any (·.id == id) || b.id == id) := by
  unfold declare
  split
  next known =>
    -- the binding that is replaced has the same id
    have same : ∀ a : Binding, ((if a.id == b.id then b else a).id == id) = (a.id == id) := by
      intro a
      split
      next equal => rw [eq_of_beq equal]
      · rfl
    simp only [List.any_map, Function.comp_def, same]
    cases asked : b.id == id with
    | false => simp
    | true =>
      rw [eq_of_beq asked] at known
      simp [known]
  · simp

/-- Every declared variable is there. -/
theorem ofDeclarations_contains {declarations : List Variable} {d : Variable}
    (declared : d ∈ declarations) : (ofDeclarations declarations).contains d.id = true := by
  -- bindings are only added or replaced by ones of the same id
  have grows : ∀ (later : List Variable) (bindings : List Binding),
      (bindings.any (·.id == d.id) = true ∨ d ∈ later) →
        (later.foldl (fun bindings v => declare bindings ⟨v.id, v.type, v.initial.coerce v.type⟩)
          bindings).any (·.id == d.id) = true := by
    intro later
    induction later with
    | nil =>
      intro bindings known
      rcases known with known | none
      · exact known
      · cases none
    | cons v later ih =>
      intro bindings known
      refine ih _ ?_
      rw [declare_contains]
      rcases known with known | listed
      · exact .inl (by simp [known])
      · rcases List.mem_cons.mp listed with rfl | listed
        · exact .inl (by simp)
        · exact .inr listed
  exact grows declarations [] (.inr declared)

end Variables

namespace World

variable {τ : Type} {w : World τ}

/-- The definition of an object of the program, with its declarations. -/
theorem Coherent.definition (coherent : w.Coherent) {object : Nat} {c : CompiledObject}
    (found : w.program.object? object = some c) :
    ∃ o, w.project.objects[object]? = some o ∧ c.declarations = o.declarations := by
  obtain ⟨size, compiled⟩ := coherent.compiled
  obtain ⟨o, declared, origin⟩ := related_at (Program.compile_reads compiled).flip found
  exact ⟨o, declared, origin.declarations⟩

/-- What is declared for an object is seen by its instances. -/
theorem Declared.sees (declared : w.Declared) (coherent : w.Coherent) {actor object : Nat}
    (present : w.Has actor object) {o : ObjectDefinition}
    (definition : w.project.objects[object]? = some o) {r : VariableRef}
    (known : w.project.Declares o r) : w.Sees actor r := by
  obtain ⟨i, member, rfl, rfl⟩ := present
  obtain ⟨scope, id⟩ := r
  -- a project's variables are declared by the project, an object's by its definition
  cases scope with
  | global =>
    obtain ⟨d, listed, rfl⟩ := known
    refine ⟨w.globals, rfl, ?_⟩
    rw [declared.globals.contains]
    exact Variables.ofDeclarations_contains listed
  | object =>
    obtain ⟨d, listed, rfl⟩ := known
    obtain ⟨c, found⟩ := Option.isSome_iff_exists.mp (coherent.instances i member).object
    obtain ⟨o', definition', same⟩ := coherent.definition found
    cases definition.symm.trans definition'
    refine ⟨i.locals, by simp [scope?, instance?_of_mem coherent.ids member], ?_⟩
    rw [(declared.locals i member c found).contains, same]
    exact Variables.ofDeclarations_contains listed

end World

/-! ### rooms and objects that are declared -/

theorem lastIndex?_isSome {α : Type} (p : α → Bool) (as : List α) :
    (lastIndex? p as).isSome = as.any p := by
  induction as with
  | nil => rfl
  | cons a as ih =>
    simp only [lastIndex?, List.any_cons, ← ih]
    cases lastIndex? p as with
    | some i => simp
    | none => cases p a <;> rfl

/-- A program has every object that its project declares. -/
theorem Program.compile_declares {project : Project} {default : Vec Float32} {program : Program}
    (compiled : compile project default = .ok program) {id : String}
    (declared : project.declaresObject id = true) : (program.objectIndex? id).isSome := by
  obtain ⟨o, listed, same⟩ := List.any_eq_true.mp declared
  obtain ⟨c, present, origin⟩ := related_mem (compile_reads compiled).flip listed
  rw [objectIndex?, lastIndex?_isSome]
  exact List.any_eq_true.mpr ⟨c, present, by rw [origin.id]; exact same⟩

namespace World

variable {τ : Type} {w : World τ}

theorem Coherent.objectIndex? (coherent : w.Coherent) {id : String}
    (declared : w.project.declaresObject id = true) : (w.program.objectIndex? id).isSome := by
  obtain ⟨size, compiled⟩ := coherent.compiled
  exact Program.compile_declares compiled declared

private theorem placementObjects_succeeds {p : Program} {placements : List Placement}
    (known : ∀ placement ∈ placements, (p.objectIndex? placement.objectId).isSome) :
    ∃ placed, placementObjects p placements = .ok placed := by
  induction placements with
  | nil => exact ⟨[], rfl⟩
  | cons placement rest ih =>
    obtain ⟨object, found⟩ := Option.isSome_iff_exists.mp (known placement List.mem_cons_self)
    obtain ⟨placed, later⟩ := ih fun other listed => known other (List.mem_cons_of_mem _ listed)
    exact ⟨(placement, object) :: placed, by simp [placementObjects, found, later, bind, Except.bind]⟩

/-- A declared room of a well-scoped project can be entered. -/
theorem enterRoom_succeeds (coherent : w.Coherent) (wellScoped : w.project.WellScoped) {id : String}
    (declared : (w.project.room? id).isSome) : (w.enterRoom id).ending = .finished := by
  obtain ⟨room, found⟩ := Option.isSome_iff_exists.mp declared
  have listed : room ∈ w.project.rooms := List.mem_of_find?_eq_some found
  obtain ⟨placed, known⟩ := placementObjects_succeeds fun placement placing =>
    coherent.objectIndex? (wellScoped.placements room listed placement placing)
  simp only [enterRoom, found, known]
  rfl

/-- In a well-scoped project a declared room can be entered. -/
theorem changeRoom_succeeds (coherent : w.Coherent) (wellScoped : w.project.WellScoped) {id : String}
    (declared : (w.project.room? id).isSome) : (w.changeRoom id).ending = .finished := by
  have left : w.leaveRoom.Coherent := ⟨coherent.compiled, .nil, nofun⟩
  exact enterRoom_succeeds left wellScoped declared

variable [Scalar τ]

theorem stepTransition_succeeds (coherent : w.Coherent) (declared : w.Declared)
    (wellScoped : w.project.WellScoped) : w.stepTransition.ending = .finished := by
  unfold stepTransition
  have arrives := advance_arrived w.transition w.clock.delta
  generalize w.transition.advance w.clock.delta = moved at arrives
  obtain ⟨transition, arrived⟩ := moved
  cases arrived with
  | none => rfl
  | some room =>
    have still : World.Coherent { w with transition := transition } :=
      ⟨coherent.compiled, coherent.ids, coherent.instances⟩
    have known := declared.destination room (arrives.2 room rfl)
    simp only [Played.andThen, changeRoom_succeeds still wellScoped known]
    rfl

theorem followRequest_succeeds (coherent : w.Coherent) (declared : w.Declared)
    (wellScoped : w.project.WellScoped) : w.followRequest.ending = .finished := by
  unfold followRequest
  split
  · rfl
  next request asked =>
    have freed : World.Coherent { w with pending := { w.pending with room := none } } :=
      ⟨coherent.compiled, coherent.ids, coherent.instances⟩
    dsimp only
    split
    · exact changeRoom_succeeds freed wellScoped (declared.request request asked)
    · split <;> rfl

end World

/-! ### ticks that do not fail -/

namespace Moment

variable {τ : Type} [Scalar τ] {m next : Moment τ}

/-- A walk of an event in scope does not fail. -/
private theorem walk_succeeds {w w' : World τ} {v : Invocation} {steps : Nat} {frames : List Frame}
    {cause : Dangling} (coherent : w.Coherent) (declared : w.Declared) (wellScoped : w.project.WellScoped)
    (fits : Walking.Fits w ⟨v, steps, frames⟩) : ¬ World.Strode v w frames w' (.stop (.failed cause)) := by
  intro strode
  obtain ⟨present, body, found, path⟩ := fits
  obtain ⟨size, compiled⟩ := coherent.compiled
  obtain ⟨script, event, holds, _⟩ := Program.compile_body compiled found
  obtain ⟨e, numbered, rfl⟩ := Option.map_eq_some_iff.mp event
  obtain ⟨o, definition, listed⟩ := Option.bind_eq_some_iff.mp numbered
  have inScope := wellScoped.events o (List.mem_of_getElem? definition) e (List.mem_of_getElem? listed)
  have sees := fun {r} => declared.sees (r := r) coherent present definition
  rcases path with empty | path
  · -- a walk without frames is at its end
    subst empty
    cases strode
  · cases strode with
    | fail item node acted =>
      -- the action stands in a part of the event's script, so what it names is declared
      obtain ⟨rest, stands, part⟩ := path.part holds
      obtain ⟨_, rfl, _⟩ := stands.act item node
      cases inScope.part part with
      | act named _ =>
        have failed := World.perform_succeeds (fun r refers => sees (named.references r refers))
          (fun id x y relative asked => coherent.objectIndex? (named.object id x y relative asked))
          named.room declared.room cause
        exact failed (congrArg Prod.snd (World.act_failed acted))
    | dangle item node looked =>
      obtain ⟨rest, stands, part⟩ := path.part holds
      obtain ⟨_, _, _, rfl, _⟩ := stands.branch item node
      cases inScope.part part with
      | branch named _ _ _ =>
        obtain ⟨answer, held⟩ := World.holds_sees fun r refers => sees (named r refers)
        rw [held] at looked
        cases looked

/-- No step of a well-scoped project fails. -/
theorem Moved.succeeds (moved : Moved m next) (coherent : m.Coherent) (declared : m.world.Declared)
    (wellScoped : m.world.project.WellScoped) (cause : Dangling) : next.ending ≠ some (.failed cause) := by
  cases moved with
  | fail strode => exact absurd strode (walk_succeeds coherent.world declared wellScoped (coherent.walking _ rfl))
  | transitionFailed failed =>
    exact absurd (World.stepTransition_succeeds coherent.world declared wellScoped) failed
  | requestFailed failed =>
    exact absurd (World.followRequest_succeeds coherent.world declared wellScoped) failed
  | walk _ | finish _ | park _ | halt _ | pass _ | drop _ | start _ _ | resume _ _ | create | created
  | step _ | stepped | collided | handle _ _ _ | handled _ | commit | transition _ | request _
  | close => nofun

/-- No moment of a tick of a well-scoped project has failed. -/
theorem steps_succeed {w : World τ} (coherent : w.Coherent) (declared : w.Declared)
    (wellScoped : w.project.WellScoped) {delta : τ} (inside : Steps (begin w delta) m) (cause : Dangling) :
    m.ending ≠ some (.failed cause) := by
  cases inside with
  | refl =>
    rw [begin_ending]
    nofun
  | tail before last =>
    refine (step_moved last).succeeds (steps_coherent coherent before)
      (steps_declared coherent declared before) ?_ cause
    rw [(tick_sameGame before).1]
    exact wellScoped

end Moment

/-! ### calls that do not fail -/

namespace Program

/-- Whether an object compiles does not depend on the size that objects have by default. -/
private theorem objectSize_any {project : Project} {size : Vec Float32} (other : Vec Float32)
    {o : ObjectDefinition} {own : Vec Float32} (sized : objectSize project size o = .ok own) :
    ∃ own', objectSize project other o = .ok own' := by
  unfold objectSize at sized ⊢
  split at sized
  · exact ⟨_, rfl⟩
  · split at sized
    · cases sized
    · exact ⟨_, rfl⟩

private theorem compileObjects_any {project : Project} {size : Vec Float32} (other : Vec Float32)
    {a b : Arena} {objects : List ObjectDefinition} {compiled : List CompiledObject}
    (returned : compileObjects project size a objects = .ok (b, compiled)) :
    ∃ compiled', compileObjects project other a objects = .ok (b, compiled') := by
  -- the default size ends up in the sizes alone, so the arenas of both runs stay the same
  induction objects generalizing a compiled with
  | nil => cases returned; exact ⟨[], rfl⟩
  | cons o os ih =>
    simp only [compileObjects, bind, Except.bind] at returned ⊢
    split at returned
    · cases returned
    next own sized =>
      obtain ⟨own', sized'⟩ := objectSize_any other sized
      simp only [sized']
      split at returned
      · cases returned
      next middle _ =>
        split at returned
        · cases returned
        next later called =>
          cases returned
          obtain ⟨rest, called'⟩ := ih called
          simp only [called']
          exact ⟨_, rfl⟩

/-- Whether a project compiles does not depend on the default size. -/
theorem compile_any {project : Project} {size : Vec Float32} (other : Vec Float32) {program : Program}
    (compiled : compile project size = .ok program) : ∃ program', compile project other = .ok program' := by
  simp only [compile, bind, Except.bind] at compiled ⊢
  split at compiled
  · cases compiled
  next laid called =>
    obtain ⟨rest, called'⟩ := compileObjects_any other called
    simp only [called']
    exact ⟨_, rfl⟩

end Program

/-- A call that fits a project: it starts this project in a declared room, or ticks by a finite amount
that is not negative, or is any other call. -/
def HostCall.Fits {τ : Type} [Scalar τ] (p : Project) : HostCall τ → Prop
  | .start project room => project = p ∧ (p.room? room).isSome
  | .tick delta => Scalar.isFinite delta = true ∧ ¬ delta < 0
  | _ => True

namespace Game

variable {τ : Type} [Scalar τ] {p : Project} {g : Game τ}

/-- A game that has not failed, and plays the project if it plays at all. -/
private structure Sound (p : Project) (g : Game τ) : Prop where
  coherent : g.world.Coherent
  declared : g.world.Declared
  faults : g.faults = 0
  project : g.state.isLive = true → g.world.project = p

private theorem start_succeeds (wellScoped : p.WellScoped) {room : String}
    (declared : (p.room? room).isSome) :
    (g.start p room).2 = none ∧ (g.start p room).1.faults = g.faults ∧
      (g.start p room).1.world.project = p := by
  obtain ⟨size, _, compiled⟩ := wellScoped.compiles
  obtain ⟨program, compiled⟩ := Program.compile_any g.world.reset.settings.spriteSize compiled
  have clean : (loaded g.world p program).Coherent := ⟨⟨_, compiled⟩, .nil, nofun⟩
  have entered := World.enterRoom_succeeds clean wellScoped declared
  have project := (World.enterRoom_sameRun (loaded g.world p program) room).project
  unfold loaded at entered project
  simp only [start, compiled, Played.andThen, entered, settle, Played.finished, project, and_self]

private theorem tick_succeeds (wellScoped : p.WellScoped) (sound : Sound p g) {delta : τ}
    (finite : Scalar.isFinite delta = true) (forward : ¬ delta < 0) :
    (g.tick delta).2 = none ∧ (g.tick delta).1.faults = g.faults ∧
      ((g.tick delta).1.state.isLive = true → (g.tick delta).1.world.project = p) := by
  cases live : g.state.isLive with
  | false => simp [tick, finite, forward, live]
  | true =>
    have project := sound.project live
    rw [(Plays.mk finite forward live).tick]
    obtain ⟨last, inside, world, ending⟩ := Moment.tick_passes g.world delta
    have kept : (g.world.tick delta).world.project = p := by
      rw [← world, (Moment.tick_sameGame inside).1, project]
    unfold settle
    split
    next cause failed =>
      -- the last moment of the tick would have failed
      rw [failed] at ending
      exact absurd ending
        (Moment.steps_succeed sound.coherent sound.declared (project ▸ wellScoped) inside cause)
    · exact ⟨rfl, rfl, fun _ => kept⟩

/-- A call that fits does not fail. -/
private theorem call_succeeds (wellScoped : p.WellScoped) (sound : Sound p g) {c : HostCall τ}
    (fits : c.Fits p) : (g.call c).2.fault? = none ∧ Sound p (g.call c).1 := by
  obtain ⟨coherent, declared⟩ := kept_declared.call g c ⟨sound.coherent, sound.declared⟩
  cases c with
  | start project room =>
    obtain ⟨rfl, known⟩ := fits
    obtain ⟨succeeds, faults, same⟩ := start_succeeds (g := g) wellScoped known
    exact ⟨succeeds, coherent, declared, faults.trans sound.faults, fun _ => same⟩
  | tick delta =>
    obtain ⟨finite, forward⟩ := fits
    obtain ⟨succeeds, faults, same⟩ := tick_succeeds wellScoped sound finite forward
    exact ⟨succeeds, coherent, declared, faults.trans sound.faults, same⟩
  | stop => exact ⟨rfl, coherent, declared, sound.faults, nofun⟩
  | reset => exact ⟨rfl, coherent, declared, sound.faults, nofun⟩
  | press _ | release _ | releaseAll | takeSounds | snapshot =>
    exact ⟨rfl, coherent, declared, sound.faults, sound.project⟩

/-- However a host plays a well-scoped project, no call fails and no fault is counted. -/
theorem well_scoped_never_fails (wellScoped : p.WellScoped) (settings : Settings)
    (calls : List (HostCall τ)) (fits : ∀ c ∈ calls, c.Fits p) :
    (∀ r ∈ (new settings : Game τ).replies calls, r.fault? = none) ∧
      ((new settings : Game τ).after calls).faults = 0 := by
  have first : Sound p (new settings : Game τ) :=
    ⟨World.initial_coherent _ _, (kept_declared.initial _ _).2, rfl, nofun⟩
  generalize (new settings : Game τ) = g at first
  induction calls generalizing g with
  | nil => exact ⟨nofun, first.faults⟩
  | cons c calls ih =>
    obtain ⟨succeeds, sound⟩ := call_succeeds wellScoped first (fits c List.mem_cons_self)
    obtain ⟨replies, faults⟩ := ih (fun later listed => fits later (List.mem_cons_of_mem _ listed)) _ sound
    refine ⟨fun r listed => ?_, faults⟩
    rcases List.mem_cons.mp listed with rfl | listed
    · exact succeeds
    · exact replies r listed

private theorem napping_wellScoped : napping.WellScoped where
  compiles := ⟨.zero, napProgram, rfl⟩
  events o declared e listed := by
    cases List.mem_singleton.mp declared
    cases List.mem_singleton.mp listed
    have literals : ∀ a b : Value, ∀ r ∈ (Operand.literal a).references ++ (Operand.literal b).references,
        napping.Declares ⟨"cat", "Cat", none, some 1, some 1, false, [], [⟨.step, napScript⟩]⟩ r := by
      intro a b r refers
      cases refers
    refine .branch (literals _ _) (.act ⟨nofun, nofun, nofun⟩ .done) .done ?_
    exact .act ⟨nofun, nofun, nofun⟩ .done
  placements room declared placement listed := by
    cases List.mem_singleton.mp declared
    cases List.mem_singleton.mp listed
    rfl

/-- The cat naps in peace. -/
theorem well_scoped_never_fails_nap :
    let calls : List (HostCall Float) := [.start napping "room", .tick 16, .press "a", .tick 4, .stop]
    (∀ c ∈ calls, c.Fits napping) ∧ (∀ r ∈ (new .default : Game Float).replies calls, r.fault? = none) ∧
      ((new .default : Game Float).after calls).faults = 0 := by
  intro calls
  have fits : ∀ c ∈ calls, c.Fits napping := by
    have first : (HostCall.start napping "room" : HostCall Float).Fits napping := ⟨rfl, rfl⟩
    have second : (HostCall.tick 16 : HostCall Float).Fits napping :=
      ⟨by decide +kernel, by decide +kernel⟩
    have fourth : (HostCall.tick 4 : HostCall Float).Fits napping :=
      ⟨by decide +kernel, by decide +kernel⟩
    simp only [calls, List.forall_mem_cons]
    exact ⟨first, second, trivial, fourth, trivial, nofun⟩
  exact ⟨fits, well_scoped_never_fails napping_wellScoped .default calls fits⟩

end Game

end Gameplay
