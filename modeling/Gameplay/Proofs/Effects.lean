import Gameplay.Perform
import Mathlib.Data.List.Forall2
import Mathlib.Data.List.Nodup

/-!
# What an action changes

An action changes its own instance, marks at most its partner as destroyed, and otherwise touches only
the variables, the pending effects and what the host is shown. The program, the clock, the room, the
waits and the identity of every instance stay.

## Main result

`perform_performs`: every action stays within `World.Acted`, and its flow tells what it did to the status.
-/

namespace Gameplay

/-! ### variables -/

/-- The same variables with the same types; the values may differ. -/
def Variables.Like (a b : Variables) : Prop :=
  a.bindings.map (fun x => (x.id, x.type)) = b.bindings.map (fun x => (x.id, x.type))

namespace Variables

theorem Like.refl (a : Variables) : Like a a := rfl

theorem Like.symm {a b : Variables} (ab : Like a b) : Like b a := Eq.symm ab

theorem Like.trans {a b c : Variables} (ab : Like a b) (bc : Like b c) : Like a c := Eq.trans ab bc

theorem Like.contains {a b : Variables} (alike : Like a b) (id : String) :
    a.contains id = b.contains id := by
  have reduce : ∀ vars : Variables, vars.contains id =
      (vars.bindings.map fun x => (x.id, x.type)).any (·.1 == id) := by
    intro vars
    rw [List.any_map]
    rfl
  rw [reduce a, reduce b, alike]

/-- An assignment declares nothing and changes no type. -/
theorem assign?_like {a b : Variables} {id : String} {value : Value}
    (assigned : a.assign? id value = some b) : Like b a := by
  unfold assign? at assigned
  split at assigned
  · cases assigned
    simp only [Like, List.map_map]
    apply List.map_congr_left
    intro x _
    simp only [Function.comp_apply]
    split <;> rfl
  · cases assigned

end Variables

/-! ### instances -/

/-- What an action of an invocation may do to an instance. -/
structure Instance.Acted {τ : Type} (v : Invocation) (i j : Instance τ) : Prop where
  id : j.id = i.id
  object : j.object = i.object
  origin : j.origin = i.origin
  collider : j.collider = i.collider
  waits : j.waits = i.waits
  fresh : j.fresh = i.fresh
  destroyed : i.destroyed = true → j.destroyed = true
  others : i.id ≠ v.actor → j = i ∨ v.partner = some i.id ∧ j = { i with destroyed := true }

theorem Instance.Acted.refl {τ : Type} (v : Invocation) (i : Instance τ) : i.Acted v i :=
  ⟨rfl, rfl, rfl, rfl, rfl, rfl, fun marked => marked, fun _ => .inl rfl⟩

theorem Instance.Acted.trans {τ : Type} {v : Invocation} {i j k : Instance τ}
    (first : i.Acted v j) (second : j.Acted v k) : i.Acted v k where
  id := second.id.trans first.id
  object := second.object.trans first.object
  origin := second.origin.trans first.origin
  collider := second.collider.trans first.collider
  waits := second.waits.trans first.waits
  fresh := second.fresh.trans first.fresh
  destroyed marked := second.destroyed (first.destroyed marked)
  others other := by
    -- an instance that both actions leave alone but for its mark has one mark in the end
    have later := second.others (first.id ▸ other)
    rcases first.others other with rfl | ⟨met, rfl⟩
    · exact later
    · rcases later with rfl | ⟨_, rfl⟩ <;> exact .inr ⟨met, rfl⟩

namespace World

variable {τ : Type}

/-- What an action of an invocation may do to the world. -/
structure Acted (v : Invocation) (w w' : World τ) : Prop where
  settings : w'.settings = w.settings := by rfl
  project : w'.project = w.project := by rfl
  program : w'.program = w.program := by rfl
  clock : w'.clock = w.clock := by rfl
  keys : w'.keys = w.keys := by rfl
  transition : w'.transition = w.transition := by rfl
  room : w'.room = w.room := by rfl
  lastId : w'.lastId = w.lastId := by rfl
  journal : w'.journal = w.journal := by rfl
  instances : List.Forall₂ (Instance.Acted v) w.instances w'.instances
  /-- Assignments declare nothing, also on an instance. -/
  locals : (w.instances.map (·.id)).Nodup →
    List.Forall₂ (fun i j => j.locals.Like i.locals) w.instances w'.instances
  globals : w'.globals.Like w.globals := by rfl
  /-- Only objects of the program are asked to be spawned. -/
  spawns : ∃ asked, w'.pending.spawns = asked ++ w.pending.spawns ∧
    ∀ s ∈ asked, ∃ id, w.program.objectIndex? id = some s.object := by
      exact ⟨[], rfl, by simp⟩
  /-- Only a declared room is asked for, and only if none was. -/
  request : w'.pending.room = w.pending.room ∨ w.pending.room = none ∧
    ∃ r, w'.pending.room = some r ∧ (w.project.room? r.room).isSome := by exact .inl rfl

theorem forall₂_trans {α : Type} {R : α → α → Prop} (compose : ∀ a b c, R a b → R b c → R a c)
    {as bs cs : List α} (first : List.Forall₂ R as bs) (second : List.Forall₂ R bs cs) :
    List.Forall₂ R as cs := by
  induction first generalizing cs with
  | nil => exact second
  | cons related _ ih =>
    cases second with
    | cons relatedLater rest => exact .cons (compose _ _ _ related relatedLater) (ih rest)

theorem ids_of_acted {v : Invocation} {is js : List (Instance τ)}
    (acted : List.Forall₂ (Instance.Acted v) is js) : js.map (·.id) = is.map (·.id) := by
  induction acted with
  | nil => rfl
  | cons related _ ih => simp only [List.map_cons, related.id, ih]

namespace Acted

/-- A change that leaves the instances alone. -/
theorem untouched (v : Invocation) (is : List (Instance τ)) :
    List.Forall₂ (Instance.Acted v) is is ∧ List.Forall₂ (fun i j => j.locals.Like i.locals) is is :=
  ⟨List.forall₂_same.mpr fun i _ => .refl v i, List.forall₂_same.mpr fun _ _ => .refl _⟩

theorem refl (v : Invocation) (w : World τ) : w.Acted v w where
  instances := (untouched v _).1
  locals _ := (untouched v _).2

/-- A change to nothing but the status, the score, what the host is shown, the random generator and
the custom events that are emitted. -/
theorem aside (v : Invocation) (w : World τ) (status : Status) (toasts : Toasts τ) (score : Float)
    (random : Random) (sounds : List String) (emits : List Emit) :
    w.Acted v { w with
      status := status, toasts := toasts, score := score, random := random, sounds := sounds
      pending := { w.pending with emits := emits } } where
  instances := (untouched v _).1
  locals _ := (untouched v _).2

/-- What two actions do one after the other is within what an action may do. -/
theorem trans {v : Invocation} {w w' w'' : World τ} (first : w.Acted v w')
    (second : w'.Acted v w'') : w.Acted v w'' where
  settings := second.settings.trans first.settings
  project := second.project.trans first.project
  program := second.program.trans first.program
  clock := second.clock.trans first.clock
  keys := second.keys.trans first.keys
  transition := second.transition.trans first.transition
  room := second.room.trans first.room
  lastId := second.lastId.trans first.lastId
  journal := second.journal.trans first.journal
  instances := forall₂_trans (fun _ _ _ => .trans) first.instances second.instances
  locals unique := by
    refine forall₂_trans (fun _ _ _ earlier later => later.trans earlier) (first.locals unique) ?_
    exact second.locals (ids_of_acted first.instances ▸ unique)
  globals := second.globals.trans first.globals
  spawns := by
    obtain ⟨asked, equal, known⟩ := first.spawns
    obtain ⟨askedLater, equalLater, knownLater⟩ := second.spawns
    refine ⟨askedLater ++ asked, by rw [equalLater, equal, List.append_assoc], ?_⟩
    intro s member
    rcases List.mem_append.mp member with later | earlier
    · exact first.program ▸ knownLater s later
    · exact known s earlier
  request := by
    -- the first room that is asked for is the one that stays
    rcases first.request with same | ⟨free, r, asked, declared⟩
    · rw [← same, ← first.project]
      exact second.request
    · rcases second.request with same | ⟨free', _⟩
      · exact .inr ⟨free, r, same.trans asked, declared⟩
      · rw [asked] at free'
        cases free'

/-- A change to the acting instance alone that assigns to no variable. -/
theorem modify {v : Invocation} {w : World τ} {f : Instance τ → Instance τ}
    (change : ∀ i : Instance τ, i.id = v.actor → i.Acted v (f i))
    (kept : ∀ i : Instance τ, (f i).locals = i.locals) : w.Acted v (w.modify v.actor f) where
  instances := by
    refine List.forall₂_map_right_iff.mpr (List.forall₂_same.mpr fun i _ => ?_)
    split
    · exact change i ‹_›
    · exact .refl v i
  locals _ := by
    refine List.forall₂_map_right_iff.mpr (List.forall₂_same.mpr fun i _ => ?_)
    split
    · rw [kept i]
      exact .refl _
    · exact .refl _

end Acted

/-- What is played when a look-up succeeds and when it does not. -/
theorem given_cases {α : Type} {w : World τ} {looked : Except Dangling α}
    {go : α → World τ × Flow τ} {P : World τ × Flow τ → Prop}
    (failed : ∀ cause, looked = .error cause → P (w, .fail cause))
    (found : ∀ a, looked = .ok a → P (go a)) : P (w.given looked go) := by
  unfold given
  cases outcome : looked with
  | ok a => exact found a outcome
  | error cause => exact failed cause outcome

theorem destroy_acted {v : Invocation} {w : World τ} {id : Nat}
    (own : id = v.actor ∨ v.partner = some id) : w.Acted v (w.destroy id) where
  instances := by
    refine List.forall₂_map_right_iff.mpr (List.forall₂_same.mpr fun i _ => ?_)
    split
    next same =>
      refine ⟨rfl, rfl, rfl, rfl, rfl, rfl, fun _ => rfl, fun other => ?_⟩
      rcases own with mine | met
      · exact absurd (same.trans mine) other
      · exact .inr ⟨same ▸ met, rfl⟩
    · exact .refl v i
  locals _ := by
    refine List.forall₂_map_right_iff.mpr (List.forall₂_same.mpr fun i _ => ?_)
    split <;> exact .refl _
  spawns := ⟨[], by simp only [destroy, Pending.destroy]; split <;> rfl, by simp⟩
  request := .inl (by simp only [destroy, Pending.destroy]; split <;> rfl)

theorem instance?_some {w : World τ} {id : Nat} {i : Instance τ} (found : w.instance? id = some i) :
    i ∈ w.instances ∧ i.id = id := by
  refine ⟨List.mem_of_find?_eq_some found, ?_⟩
  simpa using List.find?_some found

theorem assign_acted {v : Invocation} {w w' : World τ} {r : VariableRef} {value : Value}
    (assigned : w.assign v.actor r value = .ok w') : w.Acted v w' := by
  obtain ⟨scope, id⟩ := r
  unfold assign at assigned
  split at assigned
  · cases assigned
  next vars looked =>
    obtain ⟨old, found, changed⟩ := Option.bind_eq_some_iff.mp looked
    have alike := Variables.assign?_like changed
    cases scope with
    | global =>
      cases assigned
      cases found
      exact { instances := (Acted.untouched v _).1, locals := fun _ => (Acted.untouched v _).2,
              globals := alike }
    | object =>
      cases assigned
      obtain ⟨own, present, rfl⟩ := Option.map_eq_some_iff.mp found
      obtain ⟨member, mine⟩ := instance?_some present
      refine { instances := ?_, locals := fun unique => ?_ }
      · refine List.forall₂_map_right_iff.mpr (List.forall₂_same.mpr fun i _ => ?_)
        split
        next same => exact ⟨rfl, rfl, rfl, rfl, rfl, rfl, fun marked => marked, fun other => absurd same other⟩
        · exact .refl v i
      · refine List.forall₂_map_right_iff.mpr (List.forall₂_same.mpr fun i present' => ?_)
        split
        next same =>
          -- ids are distinct, so the instance that is changed is the one that was looked up
          have only : i = own := List.inj_on_of_nodup_map unique present' member (same.trans mine.symm)
          exact only ▸ alike
        · exact .refl _

/-- What an action gives: a world that it may have acted on, and a flow that says whether the status
changed. Only `endGame` halts and only `wait` suspends. -/
structure Performs (v : Invocation) (action : Action) (w : World τ) (r : World τ × Flow τ) : Prop where
  acted : w.Acted v r.1
  status : r.2 ≠ .halt → r.1.status = w.status
  halt : r.2 = .halt →
    ∃ message, action = .endGame message ∧ r.1 = { w with status := .finish message }
  suspend : ∀ duration, r.2 = .suspend duration → (∃ operand, action = .wait operand) ∧ r.1 = w

/-- An action that goes on without a change to the status. -/
private theorem Performs.next {v : Invocation} {action : Action} {w w' : World τ} (acted : w.Acted v w')
    (status : w'.status = w.status) : Performs v action w (w', .next) :=
  ⟨acted, fun _ => status, nofun, nofun⟩

private theorem Performs.fail {v : Invocation} {action : Action} {w w' : World τ} (acted : w.Acted v w')
    (status : w'.status = w.status) (cause : Dangling) : Performs v action w (w', .fail cause) :=
  ⟨acted, fun _ => status, nofun, nofun⟩

private theorem Performs.given {α : Type} {v : Invocation} {action : Action} {w : World τ}
    {looked : Except Dangling α} {go : α → World τ × Flow τ}
    (found : ∀ a, looked = .ok a → Performs v action w (go a)) :
    Performs v action w (w.given looked go) :=
  given_cases (fun cause _ => .fail (.refl v w) rfl cause) found

/-- An action that moves its instance and changes nothing else. -/
private theorem Performs.motion {v : Invocation} {action : Action} {w : World τ}
    {f : Instance τ → Instance τ} (moves : ∀ i : Instance τ, f i =
      { i with position := (f i).position, velocity := (f i).velocity, rotation := (f i).rotation }) :
    Performs v action w (w.modify v.actor f, .next) := by
  refine .next (.modify (fun i mine => ?_) fun i => ?_) rfl
  · rw [moves i]
    exact ⟨rfl, rfl, rfl, rfl, rfl, rfl, fun marked => marked, fun other => absurd mine other⟩
  · rw [moves i]

private theorem Performs.assigned {v : Invocation} {action : Action} {w w' : World τ} {r : VariableRef}
    {value : Value} (assigned : w.assign v.actor r value = .ok w') :
    Performs v action w (w', .next) := by
  refine .next (assign_acted assigned) ?_
  unfold assign at assigned
  split at assigned
  · cases assigned
  · split at assigned <;> cases assigned <;> rfl

private theorem askForRoom_performs {v : Invocation} {action : Action} {w : World τ} {room : String}
    {transition : TransitionKind} : Performs v action w (w.askForRoom room transition) := by
  unfold askForRoom
  split
  · exact .fail (.refl v w) rfl _
  next found declared =>
    refine .next ?_ rfl
    cases asked : w.pending.room with
    | none =>
      refine { instances := (Acted.untouched v _).1, locals := fun _ => (Acted.untouched v _).2,
               spawns := ⟨[], by simp [Pending.claimRoom?, asked], by simp⟩, request := ?_ }
      exact .inr ⟨asked, ⟨room, transition⟩, by simp [Pending.claimRoom?, asked], by simp [declared]⟩
    | some request =>
      exact { instances := (Acted.untouched v _).1, locals := fun _ => (Acted.untouched v _).2,
              spawns := ⟨[], by simp [Pending.claimRoom?, asked], by simp⟩,
              request := .inl (by simp [Pending.claimRoom?, asked]) }

variable [Scalar τ]

/-- Every action keeps to what an action of its invocation may do. -/
theorem perform_performs (w : World τ) (v : Invocation) (action : Action) :
    Performs v action w (w.perform v action) := by
  cases action with
  | move dx dy => exact .given fun _ _ => .motion fun _ => rfl
  | setVelocity vx vy => exact .given fun _ _ => .motion fun _ => rfl
  | rotate degrees => exact .given fun _ _ => .motion fun _ => rfl
  | moveToward x y speed => exact .given fun _ _ => .given fun _ _ => .motion fun _ => rfl
  | clampToRoom => exact .motion fun _ => rfl
  | teleport x y => exact .given fun _ _ => .motion fun _ => rfl
  | destroySelf => exact .next (destroy_acted (.inl rfl)) rfl
  | destroyOther =>
    simp only [perform]
    split
    next other met =>
      refine .next ?_ ?_
      · split
        · exact destroy_acted (.inr met)
        · exact .refl v w
      · split <;> rfl
    · exact .next (.refl v w) rfl
  | spawnObject objectId x y relative =>
    simp only [perform]
    split
    · exact .fail (.refl v w) rfl _
    next object found =>
      refine .given fun target _ => .next ?_ rfl
      refine { instances := (Acted.untouched v _).1, locals := fun _ => (Acted.untouched v _).2,
               spawns := ⟨[_], rfl, ?_⟩ }
      intro s member
      cases List.mem_singleton.mp member
      exact ⟨objectId, found⟩
  | changeScore delta => exact .given fun _ _ => .next (.aside ..) rfl
  | endGame message => exact ⟨.aside .., fun other => absurd rfl other, fun _ => ⟨message, rfl, rfl⟩, nofun⟩
  | message text duration => exact .given fun _ _ => .next (.aside ..) rfl
  | playSound soundId => exact .next (.aside ..) rfl
  | changeVariable target op value =>
    exact .given fun _ _ => .given fun _ _ => .given fun _ assigned => .assigned assigned
  | randomizeVariable target min max integer =>
    refine .given fun low _ => .given fun high _ => ?_
    dsimp only
    generalize w.random.draw low high integer = drawing
    obtain ⟨drawn, random⟩ := drawing
    -- the draw counts even if the assignment fails
    have drew : w.Acted v { w with random := random } := .aside ..
    refine given_cases (fun cause _ => .fail drew rfl cause) fun w' assigned => ?_
    have later : Performs v (.randomizeVariable target min max integer) { w with random := random }
        (w', .next) := .assigned assigned
    exact .next (drew.trans later.acted) (later.status nofun)
  | copyVariable source target =>
    exact .given fun _ _ => .given fun _ assigned => .assigned assigned
  | goToRoom roomId transition => exact askForRoom_performs
  | restartRoom transition =>
    simp only [perform]
    split
    · exact .next (.refl v w) rfl
    · exact askForRoom_performs
  | wait duration =>
    refine .given fun milliseconds _ => ?_
    exact ⟨.refl v w, fun _ => rfl, nofun, fun _ _ => ⟨⟨duration, rfl⟩, rfl⟩⟩
  | emitCustomEvent name => exact .next (.aside ..) rfl

/-! ### actions and the journal -/

/-- An action that fails is not noted. -/
theorem act_failed {w w' : World τ} {v : Invocation} {action : Action} {cause : Dangling}
    (acted : w.act v action = (w', .fail cause)) : w.perform v action = (w', .fail cause) := by
  simp only [act] at acted
  split at acted
  next performed =>
    cases acted
    exact performed
  next failed _ =>
    cases acted
    exact absurd rfl (failed cause)

/-- An action that does not fail is noted. -/
private theorem act_noted {w w' : World τ} {v : Invocation} {action : Action} {flow : Flow τ}
    (acted : w.act v action = (w', flow)) (went : ∀ cause, flow ≠ .fail cause) :
    ∃ w₀, w.perform v action = (w₀, flow) ∧ w' = w₀.note (.performed v action) := by
  simp only [act] at acted
  split at acted
  next cause _ =>
    cases acted
    exact absurd rfl (went cause)
  next w₀ _ _ performed =>
    cases acted
    exact ⟨w₀, performed, rfl⟩

variable {w w' : World τ} {v : Invocation} {action : Action}

/-- After an action that goes on, the world is that of the action with the action noted. -/
theorem act_next (acted : w.act v action = (w', .next)) :
    ∃ w₀, w.Acted v w₀ ∧ w₀.status = w.status ∧ w' = w₀.note (.performed v action) := by
  obtain ⟨w₀, performed, noted⟩ := act_noted acted nofun
  have result := perform_performs w v action
  rw [performed] at result
  exact ⟨w₀, result.acted, result.status nofun, noted⟩

/-- A wait changes nothing but the journal. -/
theorem act_suspend {duration : τ} (acted : w.act v action = (w', .suspend duration)) :
    (∃ operand, action = .wait operand) ∧ w' = w.note (.performed v action) := by
  obtain ⟨w₀, performed, noted⟩ := act_noted acted nofun
  have result := perform_performs w v action
  rw [performed] at result
  obtain ⟨waits, rfl⟩ := result.suspend duration rfl
  exact ⟨waits, noted⟩

/-- An end of the game changes nothing but the status and the journal. -/
theorem act_halt (acted : w.act v action = (w', .halt)) :
    ∃ message, action = .endGame message ∧
      w' = { w with status := .finish message }.note (.performed v action) := by
  obtain ⟨w₀, performed, noted⟩ := act_noted acted nofun
  have result := perform_performs w v action
  rw [performed] at result
  obtain ⟨message, ends, same⟩ := result.halt rfl
  exact ⟨message, ends, by rw [noted, ← same]⟩

theorem act_fail {cause : Dangling} (acted : w.act v action = (w', .fail cause)) :
    w.Acted v w' ∧ w'.status = w.status := by
  have result := perform_performs w v action
  rw [act_failed acted] at result
  exact ⟨result.acted, result.status nofun⟩

end World

end Gameplay
