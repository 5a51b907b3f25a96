import Gameplay.Proofs.Plans

/-!
# Slots that are run again

An invocation starts only while no wait of its slot is held, and a wait does not end in the tick that issued
it. So a slot that has been started in a tick is not resumed in this tick any more.

## Main result

`turns_unrepeated`: at every point inside a tick, no turn resumes a slot that an earlier one has started.
-/

namespace Gameplay

variable {τ : Type}

/-- The second turn does not resume the slot that the first one starts. -/
def Turn.Unrepeated (first second : Turn τ) : Prop :=
  ∀ v object wait, first = .start v → second = .resume v.actor object wait → wait.slot ≠ v.slot

namespace Moment

variable [Scalar τ] {m next : Moment τ}

/-- Slots that have been started in the tick hold waits of this tick only, and none of them is about to be
resumed. -/
structure Unrepeated (m : Moment τ) : Prop where
  order : m.world.turns.Pairwise Turn.Unrepeated
  given : ∀ v, .start v ∈ m.world.turns → v.actor ≤ m.world.lastId
  held : ∀ v, .start v ∈ m.world.turns → m.world.Each v.actor fun _ waits =>
    ∀ x ∈ waits, x.slot = v.slot → x.issued = m.world.clock.tick
  listed : ∀ v object wait, .start v ∈ m.world.turns → .resume v.actor object wait ∈ m.agenda →
    wait.slot ≠ v.slot

private theorem Moved.issued (moved : Moved m next) (coherent : m.Coherent) {v : Invocation}
    (given : v.actor ≤ m.world.lastId)
    (held : m.world.Each v.actor fun _ waits => ∀ x ∈ waits, x.slot = v.slot → x.issued = m.world.clock.tick) :
    next.world.Each v.actor fun _ waits => ∀ x ∈ waits, x.slot = v.slot → x.issued = next.world.clock.tick := by
  have clock : next.world.clock = m.world.clock := moved.sameGame.clock
  simp only [clock]
  refine moved.each coherent given held ?_ ?_
  · intro _ waits wait now old x listed slot
    rcases List.mem_append.mp listed with before | new
    · exact old x before slot
    · rw [List.mem_singleton.mp new]
      exact now
  · intro _ _ waits _ _ _ old x kept slot
    -- aging changes neither the slot nor when the wait was issued
    obtain ⟨⟨y, before, rfl⟩, _⟩ := Waits.mem_kept.mp kept
    rw [Waits.age_same] at slot ⊢
    exact old y before slot

/-- A step that takes no turn and lists nothing new keeps the turns apart. -/
private theorem Unrepeated.silent (kept : m.Unrepeated) (moved : Moved m next) (coherent : m.Coherent)
    (turns : next.world.turns = m.world.turns)
    (listed : ∀ v object wait, .start v ∈ m.world.turns → .resume v.actor object wait ∈ next.agenda →
      wait.slot ≠ v.slot) : next.Unrepeated := by
  constructor
  · exact turns ▸ kept.order
  · intro v started
    rw [turns] at started
    exact Nat.le_trans (kept.given v started) (moved.lastId coherent)
  · intro v started
    rw [turns] at started
    exact moved.issued coherent (kept.given v started) (kept.held v started)
  · intro v object wait started
    rw [turns] at started
    exact listed v object wait started

/-- A turn that is taken comes after all others. -/
private theorem Unrepeated.taken (kept : m.Unrepeated) (moved : Moved m next) (coherent : m.Coherent)
    {turn : Turn τ} (agenda : m.agenda = turn :: next.agenda)
    (turns : next.world.turns = m.world.turns ++ [turn])
    (free : ∀ v, turn = .start v → m.world.bars v = false) : next.Unrepeated := by
  have given : ∀ v, .start v ∈ next.world.turns → v.actor ≤ m.world.lastId := by
    intro v started
    rw [turns] at started
    rcases List.mem_append.mp started with before | now
    · exact kept.given v before
    · cases List.mem_singleton.mp now
      cases coherent.turns _ (agenda ▸ List.mem_cons_self) with
      | start there _ =>
        obtain ⟨i, member, mine, _⟩ := there
        exact mine ▸ (coherent.world.instances i member).given
  constructor
  · rw [turns]
    refine List.pairwise_append.mpr ⟨kept.order, List.pairwise_singleton _ _, ?_⟩
    rintro first started second now v object wait rfl rfl
    refine kept.listed v object wait started ?_
    rw [agenda, List.mem_singleton.mp now]
    exact List.mem_cons_self
  · exact fun v started => Nat.le_trans (given v started) (moved.lastId coherent)
  · intro v started
    refine moved.issued coherent (given v started) ?_
    rw [turns] at started
    rcases List.mem_append.mp started with before | now
    · exact kept.held v before
    · -- nothing bars what starts, so no wait of its slot is held
      have unheld := ((World.bars_iff coherent.world.ids v).mp (free v (List.mem_singleton.mp now).symm)).2.2
      intro i member mine x held slot
      exact absurd ⟨i, member, mine, slot ▸ List.mem_map_of_mem held⟩ unheld
  · intro v object wait started listed
    rw [turns] at started
    rcases List.mem_append.mp started with before | now
    · exact kept.listed v object wait before (agenda ▸ List.mem_cons_of_mem _ listed)
    · -- waits are resumed before anything starts
      have order := coherent.order
      rw [agenda, ← List.mem_singleton.mp now] at order
      have none := List.filterMap_eq_nil_iff.mp (order.start_owes v.actor) _ listed
      simp [Turn.slot?] at none

/-- What ends in a tick was issued in an earlier one. -/
private theorem Unrepeated.step {w w' : World τ} {i : Instance τ} {is : List (Instance τ)} {due : List (Wait τ)}
    (kept : Unrepeated ⟨w, .step, none, [], i :: is, none⟩) (taken : w.takeDue i.id = (w', due))
    {v : Invocation} {object : Nat} {wait : Wait τ} (started : .start v ∈ w.turns)
    (listed : .resume v.actor object wait ∈ due.map (Turn.resume i.id i.object) ++
      (w.invocations i none (· == .step)).map Turn.start) : wait.slot ≠ v.slot := by
  intro same
  rcases List.mem_append.mp listed with resumes | starts
  · obtain ⟨x, ends, turn⟩ := List.mem_map.mp resumes
    obtain ⟨actor, _, rfl⟩ := Turn.resume.inj turn
    rcases World.takeDue_cases taken with ⟨_, _, rfl⟩ | ⟨own, found, rfl, _⟩
    · cases ends
    · obtain ⟨member, mine⟩ := World.instance?_some found
      obtain ⟨⟨y, held, rfl⟩, _, earlier⟩ := Waits.mem_due.mp ends
      rw [Waits.age_same] at same earlier
      exact earlier (kept.held v started own member (mine.trans actor) y held same)
  · obtain ⟨u, _, turn⟩ := List.mem_map.mp starts
    cases turn

theorem Unrepeated.moved (kept : m.Unrepeated) (moved : Moved m next) (coherent : m.Coherent) : next.Unrepeated := by
  have listed := kept.listed
  -- an agenda of starts alone resumes nothing, so it cannot clash with a turn that was taken
  have starts (vs : List Invocation) : ∀ v object (wait : Wait τ), .start v ∈ m.world.turns →
      .resume v.actor object wait ∈ vs.map Turn.start → wait.slot ≠ v.slot := by
    intro v object wait _ arranged
    obtain ⟨u, _, turn⟩ := List.mem_map.mp arranged
    cases turn
  cases id moved with
  | walk strode | halt strode | fail strode => exact kept.silent moved coherent strode.turns listed
  | park strode =>
    refine kept.silent moved coherent ?_ listed
    refine (World.turns_note _ _).trans ((List.append_nil _).trans strode.turns)
  | finish _ => exact kept.silent moved coherent rfl listed
  | pass _ | drop _ =>
    exact kept.silent moved coherent rfl fun v object wait started later =>
      listed v object wait started (List.mem_cons_of_mem _ later)
  | start free _ => exact kept.taken moved coherent rfl (World.turns_note _ _) fun v same => by cases same; exact free
  | resume _ _ => exact kept.taken moved coherent rfl (World.turns_note _ _) nofun
  | create => exact kept.silent moved coherent rfl (starts _)
  | stepped => exact kept.silent moved coherent rfl (starts _)
  | step taken =>
    exact kept.silent moved coherent (World.takeDue_same taken).2 fun _ _ _ => kept.step taken
  | handle _ _ taken =>
    subst taken
    exact kept.silent moved coherent ((World.turns_note _ _).trans (List.append_nil _)) (starts _)
  | created | collided | handled _ | close => exact kept.silent moved coherent rfl nofun
  | commit => exact kept.silent moved coherent (World.commit_sameRun _).turns nofun
  | transition _ | transitionFailed _ =>
    exact kept.silent moved coherent (World.stepTransition_sameRun _).turns nofun
  | request _ | requestFailed _ =>
    exact kept.silent moved coherent (World.followRequest_sameRun _).turns nofun

theorem turns_unrepeated {w : World τ} (coherent : w.Coherent) {delta : τ} (inside : Steps (begin w delta) m) :
    m.world.turns.Pairwise Turn.Unrepeated := by
  have first : Unrepeated (begin w delta) := by
    have none : (begin w delta).world.turns = [] := by
      rw [begin_world]
      rfl
    have missing : ∀ turn, turn ∉ (begin w delta).world.turns := none ▸ fun _ => List.not_mem_nil
    exact ⟨none ▸ .nil, fun _ started => absurd started (missing _),
      fun _ started => absurd started (missing _), fun _ _ _ started => absurd started (missing _)⟩
  have kept : m.Unrepeated := inside.keeps (begin_coherent coherent delta) first fun moved coherent kept =>
    kept.moved moved coherent
  exact kept.order

end Moment

end Gameplay
