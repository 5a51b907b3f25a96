import Gameplay.Proofs.Places

/-!
# What actions leave to the end of the tick

Two actions mark an instance to be removed, one asks for an instance to be spawned, and one emits a custom
event. Each is noted where a later part of the tick finds it, and no other action touches these notes.

## Main results

`Strode.deed`: what a step of a walk leaves of marks, of spawns and of custom events.
-/

namespace Gameplay

variable {τ : Type}

/-- The action is aimed at an instance: its own, or the one that it meets, if it is still there. -/
inductive Action.Aims (w : World τ) (v : Invocation) : Action → Nat → Prop
  | self : Aims w v .destroySelf v.actor
  | other {id : Nat} : v.partner = some id → (w.instance? id).isSome = true → Aims w v .destroyOther id

/-- The action asks for an instance of an object at a position, which may be relative to its own. -/
inductive Action.Spawns (w : World τ) (v : Invocation) : Action → Spawn → Prop
  | absolute {objectId : String} {x y : Operand} {object : Nat} {target : Vec Float32} :
      w.program.objectIndex? objectId = some object → w.point v.actor x y = .ok target →
      Spawns w v (.spawnObject objectId x y false) ⟨object, target⟩
  | relative {objectId : String} {x y : Operand} {object : Nat} {target : Vec Float32} {i : Instance τ} :
      w.program.objectIndex? objectId = some object → w.point v.actor x y = .ok target →
      w.instance? v.actor = some i →
      Spawns w v (.spawnObject objectId x y true) ⟨object, target + i.position⟩

def Action.isSpawn : Action → Bool
  | .spawnObject _ _ _ _ => true
  | _ => false

/-- The custom event that an action of an object emits. -/
def Action.emit? (p : Program) (object : Nat) : Action → Option Emit
  | .emitCustomEvent name => some ⟨name, ((p.object? object).map (·.id)).getD ""⟩
  | _ => none

namespace World

variable {w w' : World τ} {v : Invocation} {action : Action}

/-- What is left by an action that was carried out, or by none. -/
structure Deed (v : Invocation) (done : Option Action) (w w' : World τ) : Prop where
  marks : List.Forall₂ (fun i j => j.id = i.id ∧
    (j.destroyed = true ↔ i.destroyed = true ∨ ∃ a ∈ done, a.Aims w v i.id)) w.instances w'.instances
  destroys : ∀ id, id ∈ w'.pending.destroys ↔ id ∈ w.pending.destroys ∨ ∃ a ∈ done, a.Aims w v id
  spawns : (∃ a ∈ done, ∃ s, a.Spawns w v s ∧ w'.pending.spawns = s :: w.pending.spawns) ∨
    (∀ a ∈ done, a.isSpawn = false) ∧ w'.pending.spawns = w.pending.spawns
  emits : w'.pending.emits = (done.bind (·.emit? w.program v.object)).toList ++ w.pending.emits

/-! ### actions that leave nothing -/

/-- No mark, no spawn and no custom event is changed. -/
structure Harmless (w w' : World τ) : Prop where
  instances : List.Forall₂ (fun i j => j.id = i.id ∧ j.destroyed = i.destroyed) w.instances w'.instances
  destroys : w'.pending.destroys = w.pending.destroys := by rfl
  spawns : w'.pending.spawns = w.pending.spawns := by rfl
  emits : w'.pending.emits = w.pending.emits := by rfl

namespace Harmless

theorem untouched (is : List (Instance τ)) :
    List.Forall₂ (fun i j => j.id = i.id ∧ j.destroyed = i.destroyed) is is :=
  List.forall₂_same.mpr fun _ _ => ⟨rfl, rfl⟩

theorem refl (w : World τ) : w.Harmless w := { instances := untouched _ }

private theorem modify {id : Nat} {f : Instance τ → Instance τ}
    (same : ∀ i, (f i).id = i.id ∧ (f i).destroyed = i.destroyed) : w.Harmless (w.modify id f) where
  instances := by
    refine List.forall₂_map_right_iff.mpr (List.forall₂_same.mpr fun i _ => ?_)
    split
    · exact same i
    · exact ⟨rfl, rfl⟩

private theorem assign {actor : Nat} {r : VariableRef} {value : Value}
    (assigned : w.assign actor r value = .ok w') : w.Harmless w' := by
  unfold World.assign at assigned
  split at assigned
  · cases assigned
  · split at assigned
    · cases assigned
      exact { instances := untouched _ }
    · cases assigned
      exact modify fun _ => ⟨rfl, rfl⟩

private theorem askForRoom (room : String) (transition : TransitionKind) :
    w.Harmless (w.askForRoom room transition).1 := by
  unfold World.askForRoom
  split
  · exact .refl w
  · refine { instances := untouched _, destroys := ?_, spawns := ?_, emits := ?_ } <;>
      cases asked : w.pending.room <;> simp [Pending.claimRoom?, asked]

/-- What was looked up is given to a harmless continuation, or the action fails. -/
private theorem given {α : Type} {looked : Except Dangling α} {go : α → World τ × Flow τ}
    (found : ∀ a, looked = .ok a → w.Harmless (go a).1) : w.Harmless (w.given looked go).1 :=
  given_cases (P := fun r => w.Harmless r.1) (fun _ _ => .refl w) found

theorem deed (harmless : w.Harmless w') {done : Option Action}
    (aimless : ∀ a ∈ done, ∀ id, ¬ a.Aims w v id) (unasked : ∀ a ∈ done, a.isSpawn = false)
    (silent : done.bind (·.emit? w.program v.object) = none) : Deed v done w w' where
  marks := by
    refine harmless.instances.imp fun i j ⟨id, same⟩ => ⟨id, ?_⟩
    rw [same]
    exact ⟨.inl, fun marked => marked.resolve_right fun ⟨a, did, aims⟩ => aimless a did _ aims⟩
  destroys id := by
    rw [harmless.destroys]
    exact ⟨.inl, fun marked => marked.resolve_right fun ⟨a, did, aims⟩ => aimless a did _ aims⟩
  spawns := .inr ⟨unasked, harmless.spawns⟩
  emits := by
    rw [harmless.emits, silent]
    rfl

end Harmless

theorem Deed.nothing (v : Invocation) (w : World τ) : Deed v none w w :=
  (Harmless.refl w).deed (fun _ did => nomatch did) (fun _ did => nomatch did) rfl

/-! ### actions -/

private theorem mem_destroy (p : Pending) (id other : Nat) :
    other ∈ (p.destroy id).destroys ↔ other ∈ p.destroys ∨ other = id := by
  unfold Pending.destroy
  split
  next listed =>
    have member : id ∈ p.destroys := by simpa using listed
    exact ⟨.inl, fun either => either.elim (fun held => held) fun same => same ▸ member⟩
  · simp only [List.mem_cons]
    exact or_comm

/-- To destroy an instance is the deed of the action that is aimed at it alone. -/
private theorem destroy_deed {id : Nat} (aims : ∀ other, action.Aims w v other ↔ other = id)
    (unasked : action.isSpawn = false) (silent : action.emit? w.program v.object = none) :
    Deed v (some action) w (w.destroy id) where
  marks := by
    refine List.forall₂_map_right_iff.mpr (List.forall₂_same.mpr fun i _ => ?_)
    split
    next mine => simp [aims, mine]
    next other => simp [aims, other]
  destroys other := by
    refine (mem_destroy w.pending id other).trans ?_
    simp [aims]
  spawns := by
    refine .inr ⟨fun a did => ?_, ?_⟩
    · cases did
      exact unasked
    · simp only [destroy, Pending.destroy]
      split <;> rfl
  emits := by
    simp only [destroy, Pending.destroy, Option.bind_some, silent]
    split <;> rfl

/-- What an action gives: the deed of the action or, if it fails, none. -/
private structure Leaves (v : Invocation) (action : Action) (w : World τ) (r : World τ × Flow τ) : Prop where
  went : (∀ cause, r.2 ≠ .fail cause) → Deed v (some action) w r.1
  failed : ∀ cause, r.2 = .fail cause → Deed v none w r.1

private theorem Leaves.next (deed : Deed v (some action) w w') : Leaves v action w (w', .next) :=
  ⟨fun _ => deed, nofun⟩

private theorem Leaves.fail (cause : Dangling) : Leaves v action w (w, .fail cause) where
  went unfailed := absurd rfl (unfailed cause)
  failed _ _ := .nothing v w

private theorem Harmless.leaves {r : World τ × Flow τ} (harmless : w.Harmless r.1)
    (aimless : ∀ id, ¬ action.Aims w v id) (unasked : action.isSpawn = false)
    (silent : action.emit? w.program v.object = none) : Leaves v action w r where
  went _ := by
    refine harmless.deed (fun a did => ?_) (fun a did => ?_) silent
    · cases did
      exact aimless
    · cases did
      exact unasked
  failed _ _ := harmless.deed (fun _ did => nomatch did) (fun _ did => nomatch did) rfl

private theorem spawn_deed {s : Spawn} (spawns : action.Spawns w v s) :
    Deed v (some action) w { w with pending := w.pending.spawn s } := by
  have aimless : ∀ id, ¬ ∃ a ∈ some action, a.Aims w v id := by
    -- what asks for an instance is aimed at none
    rintro id ⟨a, did, aims⟩
    cases did
    cases spawns <;> cases aims
  constructor
  · exact List.forall₂_same.mpr fun i _ => ⟨rfl, .inl, fun marked => marked.resolve_right (aimless i.id)⟩
  · exact fun id => ⟨.inl, fun marked => marked.resolve_right (aimless id)⟩
  · exact .inl ⟨action, rfl, s, spawns, rfl⟩
  · cases spawns <;> rfl

private theorem emit_deed {e : Emit} (aimless : ∀ id, ¬ action.Aims w v id) (unasked : action.isSpawn = false)
    (emits : action.emit? w.program v.object = some e) :
    Deed v (some action) w { w with pending := w.pending.emit e } := by
  have aimless' : ∀ id, ¬ ∃ a ∈ some action, a.Aims w v id := by
    rintro id ⟨a, did, aims⟩
    cases did
    exact aimless id aims
  constructor
  · exact List.forall₂_same.mpr fun i _ => ⟨rfl, .inl, fun marked => marked.resolve_right (aimless' i.id)⟩
  · exact fun id => ⟨.inl, fun marked => marked.resolve_right (aimless' id)⟩
  · refine .inr ⟨fun a did => ?_, rfl⟩
    cases did
    exact unasked
  · simp [emits, Pending.emit]

variable [Scalar τ]

/-- An action that neither destroys, spawns nor emits changes nothing of this kind. -/
theorem perform_harmless (w : World τ) (v : Invocation) {action : Action}
    (unasked : action.isSpawn = false) (own : action ≠ .destroySelf) (met : action ≠ .destroyOther)
    (silent : action.emit? w.program v.object = none) : w.Harmless (w.perform v action).1 := by
  cases action with
  | move _ _ | setVelocity _ _ | rotate _ | teleport _ _ =>
    exact .given fun _ _ => .modify fun _ => ⟨rfl, rfl⟩
  | moveToward _ _ _ => exact .given fun _ _ => .given fun _ _ => .modify fun _ => ⟨rfl, rfl⟩
  | clampToRoom => exact .modify fun _ => ⟨rfl, rfl⟩
  | destroySelf => exact absurd rfl own
  | destroyOther => exact absurd rfl met
  | spawnObject _ _ _ _ => cases unasked
  | changeScore _ | message _ _ | wait _ =>
    exact .given fun _ _ => { instances := Harmless.untouched _ }
  | emitCustomEvent _ => cases silent
  | endGame _ | playSound _ => exact { instances := Harmless.untouched _ }
  | changeVariable _ _ _ =>
    exact .given fun _ _ => .given fun _ _ => .given fun _ assigned => .assign assigned
  | randomizeVariable _ _ _ integer =>
    refine .given fun low _ => .given fun high _ => ?_
    dsimp only
    -- a draw changes the generator only
    generalize w.random.draw low high integer = drawing
    obtain ⟨drawn, random⟩ := drawing
    refine given_cases (P := fun r => w.Harmless r.1) (fun _ _ => { instances := Harmless.untouched _ }) ?_
    intro w' assigned
    obtain ⟨instances, destroys, spawns, emits⟩ := Harmless.assign assigned
    exact ⟨instances, destroys, spawns, emits⟩
  | copyVariable _ _ => exact .given fun _ _ => .given fun _ assigned => .assign assigned
  | goToRoom _ _ => exact .askForRoom _ _
  | restartRoom _ =>
    simp only [perform]
    split
    · exact .refl w
    · exact .askForRoom _ _

private theorem spawnObject_leaves (present : (w.instance? v.actor).isSome = true) (objectId : String)
    (x y : Operand) (relative : Bool) :
    Leaves v (.spawnObject objectId x y relative) w (w.perform v (.spawnObject objectId x y relative)) := by
  simp only [perform]
  split
  · exact .fail _
  next object found =>
    refine given_cases (P := Leaves v _ w) (fun cause _ => .fail cause) fun target reached => ?_
    refine .next (spawn_deed ?_)
    obtain ⟨i, own⟩ := Option.isSome_iff_exists.mp present
    cases relative with
    | false => exact .absolute found reached
    | true =>
      simp only [own]
      exact .relative found reached own

private theorem destroyOther_leaves (w : World τ) (v : Invocation) :
    Leaves v .destroyOther w (w.perform v .destroyOther) := by
  -- it is aimed at nothing if there is no partner, or if the partner is gone
  simp only [perform]
  split
  next other met =>
    split
    next there =>
      refine .next (destroy_deed (fun id => ?_) rfl rfl)
      constructor
      · intro aims
        cases aims with
        | other met' _ => exact Option.some.inj (met'.symm.trans met)
      · intro same
        exact same ▸ .other met there
    next gone =>
      refine Harmless.leaves (.refl w) (fun id aims => ?_) rfl rfl
      cases aims with
      | other met' there =>
        cases met'.symm.trans met
        exact gone there
  next alone =>
    refine Harmless.leaves (.refl w) (fun id aims => ?_) rfl rfl
    cases aims with
    | other met _ => cases met.symm.trans alone

/-- An action that does not fail leaves what it is aimed at or asks for. One that fails leaves nothing. -/
private theorem perform_leaves (w : World τ) (v : Invocation) (action : Action)
    (present : (w.instance? v.actor).isSome = true) : Leaves v action w (w.perform v action) := by
  by_cases own : action = .destroySelf
  · subst own
    refine .next (destroy_deed (fun other => ⟨fun aims => ?_, fun same => same ▸ .self⟩) rfl rfl)
    cases aims
    rfl
  by_cases met : action = .destroyOther
  · subst met
    exact destroyOther_leaves w v
  -- an action that destroys nothing is aimed at nothing
  have aimless : ∀ id, ¬ action.Aims w v id := by
    intro id aims
    cases aims with
    | self => exact own rfl
    | other _ _ => exact met rfl
  cases spawns : action.isSpawn with
  | true =>
    cases action with
    | spawnObject objectId x y relative => exact spawnObject_leaves present objectId x y relative
    | _ => cases spawns
  | false =>
    cases emits : action.emit? w.program v.object with
    | none => exact (perform_harmless w v spawns own met emits).leaves aimless spawns emits
    | some e =>
      cases action with
      | emitCustomEvent name =>
        cases emits
        exact .next (emit_deed aimless rfl rfl)
      | _ => cases emits

/-! ### steps of a walk -/

private theorem act_deed {flow : Flow τ} (acted : w.act v action = (w', flow))
    (present : (w.instance? v.actor).isSome = true) :
    ∃ done : Option Action, w'.journal = (done.map (Happening.performed v)).toList ++ w.journal ∧
      Deed v done w w' := by
  have leaves := perform_leaves w v action present
  have journal := (perform_performs w v action).acted.journal
  unfold act at acted
  split at acted
  next cause performed =>
    cases acted
    rw [performed] at leaves journal
    exact ⟨none, journal, leaves.failed cause rfl⟩
  next flow unfailed performed =>
    cases acted
    rw [performed] at leaves journal
    obtain ⟨marks, destroys, spawns, emits⟩ := leaves.went unfailed
    exact ⟨some action, congrArg (_ :: ·) journal, marks, destroys, spawns, emits⟩

/-- A step of a walk notes the action that it has carried out, and leaves its deed. -/
theorem Strode.deed {frames : List Frame} {stride : Stride τ} (strode : Strode v w frames w' stride)
    (present : (w.instance? v.actor).isSome = true) :
    ∃ done : Option Action, w'.journal = (done.map (Happening.performed v)).toList ++ w.journal ∧
      Deed v done w w' := by
  cases strode with
  | done | leave _ | skip _ _ | dangle _ _ _ | enter _ _ _ _ => exact ⟨none, rfl, .nothing v w⟩
  | act _ _ acted => exact act_deed acted present
  | suspend _ _ acted => exact act_deed acted present
  | halt _ _ acted => exact act_deed acted present
  | fail _ _ acted => exact act_deed acted present

end World

end Gameplay
