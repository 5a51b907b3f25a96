import Gameplay.Proofs.Partners

/-!
# Invocations keep to their instance

An invocation changes its own instance. Of any other it can only mark its partner as destroyed, and only by the
action that is for this.

## Main results

`Strode.touches`, `walkWithin_touches`, `proceed_touches`: a step of a walk, a walk, and all that an invocation
does until it ends or waits.
`invocation_touches_own_instance`: with what becomes of a partner that is gone while the invocation waits.

## Proof strategy

What an action may change of an instance is known from `World.Acted`. It remains to say which action makes a
mark (`perform_left`). Steps compose (`Touches.trans`), as what one of them leaves of another instance is the
same instance or a marked one.
-/

namespace Gameplay

variable {τ : Type}

/-- What an invocation leaves of an instance, with the happenings that are noted meanwhile. Another instance is
what it was, or it is the partner and has been marked. The own instance is marked by no action but the two that
destroy. -/
structure Instance.Left (v : Invocation) (entries : List (Happening τ)) (i j : Instance τ) : Prop where
  id : j.id = i.id
  others : i.id ≠ v.actor → j = i ∨
    v.partner = some i.id ∧ .performed v .destroyOther ∈ entries ∧ j = { i with destroyed := true }
  own : i.id = v.actor → j.destroyed = true → i.destroyed = true ∨ .performed v .destroySelf ∈ entries ∨
    v.partner = some i.id ∧ .performed v .destroyOther ∈ entries

namespace Instance.Left

variable {v : Invocation} {entries more : List (Happening τ)} {i j k : Instance τ}

theorem refl (v : Invocation) (entries : List (Happening τ)) (i : Instance τ) : i.Left v entries i :=
  ⟨rfl, fun _ => .inl rfl, fun _ => .inl⟩

/-- What is noted in addition explains no less. -/
theorem mono (left : i.Left v entries j) (grown : ∀ h ∈ entries, h ∈ more) : i.Left v more j where
  id := left.id
  others other := (left.others other).imp_right fun ⟨met, did, same⟩ => ⟨met, grown _ did, same⟩
  own mine marked := (left.own mine marked).imp_right
    (Or.imp (grown _) fun ⟨met, did⟩ => ⟨met, grown _ did⟩)

theorem trans (first : i.Left v entries j) (second : j.Left v entries k) : i.Left v entries k where
  id := second.id.trans first.id
  others other := by
    have later := second.others (first.id ▸ other)
    rcases first.others other with rfl | ⟨met, did, rfl⟩
    · exact later
    · -- a second mark changes nothing
      rcases later with rfl | ⟨_, _, rfl⟩ <;> exact .inr ⟨met, did, rfl⟩
  own mine marked := by
    rcases second.own (first.id.trans mine) marked with before | did
    · exact first.own mine before
    · rw [first.id] at did
      exact .inr did

end Instance.Left

namespace World

variable {w w' w'' : World τ} {v : Invocation} {entries more : List (Happening τ)}

/-- What an invocation does to the instances of a world, and what it notes. -/
structure Touches (v : Invocation) (entries : List (Happening τ)) (w w' : World τ) : Prop where
  journal : w'.journal = entries ++ w.journal
  instances : List.Forall₂ (Instance.Left v entries) w.instances w'.instances

namespace Touches

theorem nothing (v : Invocation) (w : World τ) : Touches v [] w w :=
  ⟨rfl, List.forall₂_same.mpr fun i _ => .refl v [] i⟩

theorem note (v : Invocation) (w : World τ) (h : Happening τ) : Touches v [h] w (w.note h) :=
  ⟨rfl, List.forall₂_same.mpr fun i _ => .refl v [h] i⟩

theorem trans (first : Touches v entries w w') (second : Touches v more w' w'') :
    Touches v (more ++ entries) w w'' where
  journal := by rw [second.journal, first.journal, List.append_assoc]
  instances := by
    apply forall₂_trans (fun _ _ _ => Instance.Left.trans)
    · exact first.instances.imp fun i j left => left.mono fun h => List.mem_append_right more
    · exact second.instances.imp fun i j left => left.mono fun h => List.mem_append_left entries

end Touches

variable [Scalar τ]

/-! ### actions -/

omit [Scalar τ] in
/-- To destroy marks the instances of one id. -/
private theorem destroy_marks (w : World τ) (id : Nat) :
    List.Forall₂ (fun i j => j.destroyed = true → i.destroyed = true ∨ i.id = id)
      w.instances (w.destroy id).instances := by
  refine List.forall₂_map_right_iff.mpr (List.forall₂_same.mpr fun i _ => ?_)
  split
  next mine => exact fun _ => .inr mine
  · exact .inl

/-- No action but the two that destroy marks anything. -/
private theorem perform_unmarked (w : World τ) (v : Invocation) {action : Action}
    (own : action ≠ .destroySelf) (met : action ≠ .destroyOther) :
    List.Forall₂ (fun i j => j.id = i.id ∧ j.destroyed = i.destroyed)
      w.instances (w.perform v action).1.instances := by
  cases spawns : action.isSpawn with
  | true =>
    cases action with
    | spawnObject objectId x y relative =>
      -- a spawn is queued, and the instances are as they were
      simp only [perform]
      split
      · exact Harmless.untouched _
      · apply given_cases (P := fun r => List.Forall₂ _ w.instances r.1.instances)
        · exact fun _ _ => Harmless.untouched _
        · exact fun _ _ => Harmless.untouched _
    | _ => cases spawns
  | false =>
    cases emits : action.emit? w.program v.object with
    | none => exact (perform_harmless w v spawns own met emits).instances
    | some e =>
      cases action with
      | emitCustomEvent name => exact Harmless.untouched _
      | _ => cases emits

omit [Scalar τ] in
/-- What an action does to an instance, with the marks that are accounted for. -/
private theorem acted_left {i j : Instance τ} (acted : i.Acted v j)
    (marks : j.destroyed = true → i.destroyed = true ∨
      i.id = v.actor ∧ .performed v .destroySelf ∈ entries ∨
      v.partner = some i.id ∧ .performed v .destroyOther ∈ entries) : i.Left v entries j where
  id := acted.id
  others other := by
    rcases acted.others other with same | ⟨_, same⟩
    · exact .inl same
    · rcases marks (by rw [same]) with before | ⟨mine, _⟩ | ⟨met, did⟩
      · exact .inl (by rw [same, ← before])
      · exact absurd mine other
      · exact .inr ⟨met, did, same⟩
  own mine marked := (marks marked).imp_right (Or.imp_left And.right)

private theorem destroyOther_marks (w : World τ) (v : Invocation) :
    List.Forall₂ (fun i j => j.destroyed = true → i.destroyed = true ∨ v.partner = some i.id)
      w.instances (w.perform v .destroyOther).1.instances := by
  simp only [perform]
  split
  next other met =>
    split
    · apply (destroy_marks w other).imp
      intro i j marks marked
      rcases marks marked with before | rfl
      · exact .inl before
      · exact .inr met
    · exact List.forall₂_same.mpr fun _ _ => .inl
  · exact List.forall₂_same.mpr fun _ _ => .inl

/-- An action keeps to its instance, provided that it is among the happenings if it goes on. -/
private theorem perform_left (w : World τ) (v : Invocation) (action : Action) (entries : List (Happening τ))
    (noted : (w.perform v action).2 = .next → .performed v action ∈ entries) :
    List.Forall₂ (Instance.Left v entries) w.instances (w.perform v action).1.instances := by
  have acted := (perform_performs w v action).acted.instances
  by_cases own : action = .destroySelf
  · subst own
    refine acted.mp (fun i j acted marks => acted_left acted fun marked => ?_) (destroy_marks w v.actor)
    exact (marks marked).imp_right fun mine => .inl ⟨mine, noted rfl⟩
  by_cases met : action = .destroyOther
  · subst met
    have goesOn : (w.perform v .destroyOther).2 = .next := by
      simp only [perform]
      split <;> rfl
    refine acted.mp (fun i j acted marks => acted_left acted fun marked => ?_) (destroyOther_marks w v)
    exact (marks marked).imp_right fun meets => .inr ⟨meets, noted goesOn⟩
  · refine acted.mp (fun i j acted same => acted_left acted fun marked => ?_) (perform_unmarked w v own met)
    exact .inl (same.2 ▸ marked)

/-- An action that is carried out touches its own instance, and its partner if it destroys it. -/
private theorem act_touches {action : Action} {flow : Flow τ} (acted : w.act v action = (w', flow)) :
    ∃ entries, Touches v entries w w' := by
  have journal := (perform_performs w v action).acted.journal
  unfold act at acted
  split at acted
  next cause performed =>
    -- an action that fails is not noted, but neither does it go on
    have left := perform_left w v action [] (by simp [performed])
    cases acted
    rw [performed] at journal left
    exact ⟨[], journal, left⟩
  next flow _ performed =>
    have left := perform_left w v action [.performed v action] (by simp)
    cases acted
    rw [performed] at journal left
    exact ⟨[.performed v action], congrArg (_ :: ·) journal, left⟩

/-! ### walks -/

/-- So does a step of a walk. -/
theorem Strode.touches {frames : List Frame} {stride : Stride τ} (strode : Strode v w frames w' stride) :
    ∃ entries, Touches v entries w w' := by
  cases strode with
  | done | leave _ | skip _ _ | dangle _ _ _ | enter _ _ _ _ => exact ⟨[], .nothing v w⟩
  | act _ _ acted | suspend _ _ acted | halt _ _ acted | fail _ _ acted => exact act_touches acted

/-- However far an invocation walks, it keeps to its instance. -/
theorem walkWithin_touches (v : Invocation) (steps : Nat) (frames : List Frame) (w : World τ) :
    ∃ entries, Touches v entries w (walkWithin v steps frames w).1 := by
  induction steps generalizing frames w with
  | zero => exact ⟨[], .nothing v w⟩
  | succ steps ih =>
    rw [walkWithin_succ]
    split
    next w' left strode =>
      obtain ⟨entries, first⟩ := (stride_strode strode).touches
      obtain ⟨more, rest⟩ := ih left w'
      exact ⟨more ++ entries, first.trans rest⟩
    next strode => exact (stride_strode strode).touches

/-- A wait is kept on the own instance. -/
theorem park_touches (w : World τ) (v : Invocation) (duration : τ) (frames : List Frame) :
    ∃ entries, Touches v entries w (w.park v duration frames) := by
  refine ⟨[_], rfl, List.forall₂_map_right_iff.mpr (List.forall₂_same.mpr fun i _ => ?_)⟩
  split
  next mine => exact ⟨rfl, fun other => absurd mine other, fun _ => .inl⟩
  · exact .refl v _ i

/-- Until it ends, waits, ends the run or fails, an invocation keeps to its instance. -/
theorem proceed_touches (w : World τ) (v : Invocation) (frames : List Frame) :
    ∃ entries, Touches v entries w (w.proceed v frames).world := by
  obtain ⟨entries, walked⟩ := walkWithin_touches v (w.program.steps frames) frames w
  unfold proceed walk
  generalize walkWithin v (w.program.steps frames) frames w = result at walked
  obtain ⟨w', ended⟩ := result
  cases ended with
  | finished | halted | failed _ => exact ⟨entries, walked⟩
  | suspended duration left =>
    obtain ⟨more, parked⟩ := park_touches w' v duration left
    exact ⟨more ++ entries, walked.trans parked⟩

/-- A resumed invocation has forgotten a partner that is gone. -/
theorem resume_touches (w : World τ) (actor object : Nat) (wait : Wait τ)
    (gone : ∀ other, wait.partner = some other → w.instance? other = none) :
    ∃ entries, Touches ⟨actor, object, wait.slot, none⟩ entries w (w.resume actor object wait).world := by
  have forgotten : wait.partner.filter (fun other => (w.instance? other).isSome) = none := by
    apply Option.filter_eq_none_iff.mpr
    intro other met
    simp [gone other met]
  unfold resume
  rw [forgotten]
  obtain ⟨entries, proceeded⟩ := proceed_touches (w.note (.resumed ⟨actor, object, wait.slot, none⟩ wait))
    ⟨actor, object, wait.slot, none⟩ wait.frames
  exact ⟨_, (Touches.note _ w _).trans proceeded⟩

end World

namespace Game

variable [Scalar τ]

/-- An invocation touches no instance but its own. In any world, from any place in its items and however far it
goes: another instance is what it was, or it is the partner, the invocation has carried out `destroyOther`, and
the instance is what it was but for the mark. A wait that is resumed when its partner is gone goes on without a
partner, so it marks no other instance at all. And in a run no other instance comes to be taken for the partner:
whatever has the id of a partner that a wait remembers was there when the wait was held. -/
theorem invocation_touches_own_instance (settings : Settings) (calls : List (HostCall τ)) :
    (∀ (w : World τ) (v : Invocation) (frames : List Frame),
      (∃ entries, World.Touches v entries w (w.proceed v frames).world) ∧
      ∀ steps, ∃ entries, World.Touches v entries w (World.walkWithin v steps frames w).1) ∧
    (∀ (w : World τ) (actor object : Nat) (wait : Wait τ),
      (∀ other, wait.partner = some other → w.instance? other = none) →
        ∃ entries, World.Touches ⟨actor, object, wait.slot, none⟩ entries w
          (w.resume actor object wait).world) ∧
    ∀ p q, Instant.Later (.between ((new settings).after calls)) p → Instant.Later p q →
      ∀ i ∈ p.world.instances, ∀ wait ∈ i.waits, ∀ j ∈ q.world.instances, wait.partner = some j.id →
        ∃ k ∈ p.world.instances, k.Persists j := by
  refine ⟨fun w v frames => ⟨w.proceed_touches v frames, fun steps => ?_⟩, World.resume_touches, ?_⟩
  · exact World.walkWithin_touches v steps frames w
  · intro p q later onward i member wait held j there partner
    obtain ⟨coherent, acquainted⟩ := after_world kept_acquainted settings calls
    have known : p.world.Acquainted := later.acquainted coherent acquainted
    exact known.partner_before (later.coherent coherent) onward member held there partner

/-- The cat waits before it pounces on the mouse. Meanwhile the mouse has been replaced by another one, far
away. -/
def pouncing : Project where
  version := 1
  declarations := []
  objects := [⟨"cat", "Cat", none, some 10, some 10, true, [],
      [⟨.collision "mouse", .act (.wait (.literal (.number 20))) (.act .destroyOther .done)⟩]⟩,
    ⟨"mouse", "Mouse", none, some 2, some 2, false, [],
      [⟨.step, .act (.wait (.literal (.number 10)))
        (.act (.spawnObject "mouse" (.literal (.number 50)) (.literal (.number 50)) false)
          (.act .destroySelf .done))⟩]⟩]
  rooms := [⟨"room", "Room", 100, 100, [⟨"bed", "cat", 0, 0, none⟩, ⟨"hole", "mouse", 5, 5, none⟩]⟩]
  sprites := []
  sounds := []

/-- The cat remembers mouse 2. When it pounces, mouse 2 is gone, and mouse 3 stays. -/
theorem invocation_touches_own_instance_pouncing :
    let g : Game Float := (new .default).after [.start pouncing "room", .tick 16]
    let replaced := (g.tick 16).1
    let pounced := (replaced.tick 16).1
    ∃ i ∈ g.world.instances, ∃ wait ∈ i.waits, wait.partner = some 2 ∧
      replaced.world.instances.map (·.id) = [1, 3] ∧ replaced.world.instance? 2 = none ∧
      (∃ entries, World.Touches ⟨1, 0, wait.slot, none⟩ entries replaced.world
        (replaced.world.resume 1 0 wait).world) ∧
      pounced.world.happenings.contains (.performed ⟨1, 0, 0, none⟩ .destroyOther) = true ∧
      pounced.world.instances.map (·.id) = [1, 3] ∧
      ∃ j ∈ g.world.instances, j.id = 2 ∧ ∃ k ∈ g.world.instances, k.Persists j := by
  intro g replaced pounced
  obtain ⟨_, resumes, remembers⟩ := invocation_touches_own_instance (τ := Float) .default
    [.start pouncing "room", .tick 16]
  -- the cat's wait and mouse 2 are found by their numbers
  have waits : (g.world.instances.any fun i => i.waits.any fun wait => wait.partner == some 2) = true := by
    decide +kernel
  have mice : (g.world.instances.any fun j => j.id == 2) = true := by decide +kernel
  obtain ⟨i, member, holds⟩ := List.any_eq_true.mp waits
  obtain ⟨wait, held, partner⟩ := List.any_eq_true.mp holds
  obtain ⟨j, there, mine⟩ := List.any_eq_true.mp mice
  have met : wait.partner = some 2 := eq_of_beq partner
  have second : j.id = 2 := eq_of_beq mine
  have missing : replaced.world.instance? 2 = none := by decide +kernel
  have gone : ∀ other, wait.partner = some other → replaced.world.instance? other = none := by
    intro other same
    cases met.symm.trans same
    exact missing
  refine ⟨i, member, wait, held, met, ?_, missing, resumes replaced.world 1 0 wait gone, ?_, ?_, j, there,
    second, ?_⟩
  · decide +kernel
  · decide +kernel
  · decide +kernel
  · exact remembers (.between g) (.between g) .refl .refl i member wait held j there (second ▸ met)

end Game

end Gameplay
