import Gameplay.Proofs.Instances

/-!
# The turns of a tick

Within a part of a phase the agenda only gets shorter; a new one is arranged when it is empty and nothing
is walked. So a wait is resumed only by the turn that the step phase has arranged for it, and no turn of
an invocation comes a second time in a tick.

## Main results

`Moved.advances`: how a step changes the agenda and the instances ahead.
`Moved.resumptions`: a wait is resumed at its turn only.
`Moved.turned`: a turn that is no longer awaited is never awaited again.
-/

namespace Gameplay

variable {τ : Type}

/-! ### what was noted -/

/-- Whether something that happened is that a wait of an invocation was resumed. -/
def Happening.resumes (v : Invocation) (wait : Wait τ) : Happening τ → Bool
  | .resumed u x => u.actor == v.actor && x.slot == wait.slot && x.issued == wait.issued
  | _ => false

namespace World

/-- The resumptions of a wait in the last tick. -/
def resumptions (w : World τ) (v : Invocation) (wait : Wait τ) : List (Happening τ) :=
  w.happenings.filter (Happening.resumes v wait)

/-- In the last tick no Step event of an instance has been started. -/
def Quiet (w : World τ) (id : Nat) : Prop :=
  ∀ u, .started u ∈ w.happenings → u.actor = id → u.slot ∉ w.slots u.object (· == .step)

theorem resumptions_append {w w' : World τ} {entries : List (Happening τ)}
    (journal : w'.journal = entries ++ w.journal) (v : Invocation) (wait : Wait τ) :
    w'.resumptions v wait = w.resumptions v wait ++ entries.reverse.filter (Happening.resumes v wait) := by
  simp only [resumptions, happenings, journal, List.reverse_append, List.filter_append]

/-- A slot of a Create event is not one of a Step event. -/
theorem slots_disjoint {w : World τ} {object slot : Nat} (create : slot ∈ w.slots object (· == .create)) :
    slot ∉ w.slots object (· == .step) := by
  intro step
  -- both lists filter the events of the object by their trigger
  unfold slots at create step
  cases found : w.program.object? object with
  | none => simp [found] at create
  | some o =>
    simp only [found, Option.map_some, Option.getD_some, CompiledObject.slots, List.mem_map,
      List.mem_filter] at create step
    obtain ⟨⟨e, n⟩, ⟨numbered, isCreate⟩, rfl⟩ := create
    obtain ⟨⟨e', n'⟩, ⟨numbered', isStep⟩, same⟩ := step
    have first := List.mem_zipIdx_iff_getElem?.mp numbered
    have second := List.mem_zipIdx_iff_getElem?.mp numbered'
    simp only at same first second
    rw [same, first] at second
    cases second
    simp_all

theorem enterRoom_unhalted (w : World τ) (room : String) : (w.enterRoom room).ending ≠ .halted := by
  unfold enterRoom
  split
  · nofun
  · split <;> nofun

variable [Scalar τ]

theorem stepTransition_unhalted (w : World τ) : w.stepTransition.ending ≠ .halted := by
  unfold stepTransition
  generalize w.transition.advance w.clock.delta = moved
  obtain ⟨transition, arrived⟩ := moved
  cases arrived with
  | none => nofun
  | some room =>
    dsimp only [Played.andThen]
    split
    · nofun
    · exact enterRoom_unhalted _ room

theorem followRequest_unhalted (w : World τ) : w.followRequest.ending ≠ .halted := by
  unfold followRequest
  split
  · nofun
  · dsimp only
    split
    · exact enterRoom_unhalted _ _
    · split <;> nofun

end World

namespace Moment

variable [Scalar τ] {m next : Moment τ} {v : Invocation} {wait : Wait τ}

/-! ### how a tick goes on -/

/-- How a step changes the phase, the instances ahead and the agenda. -/
inductive Advances (m next : Moment τ) : Prop
  /-- Within a part of a phase. -/
  | within : next.phase = m.phase → next.ahead = m.ahead → next.agenda <:+ m.agenda → Advances m next
  | create {i : Instance τ} {is : List (Instance τ)} : m.phase = .create → m.ahead = i :: is →
      next.phase = .create → next.ahead = is →
      next.agenda = (m.world.invocations i none (· == .create)).map .start → Advances m next
  | created : m.phase = .create → next.phase = .step → next.ahead = m.world.live → next.agenda = [] →
      Advances m next
  | step {i : Instance τ} {is : List (Instance τ)} {due : List (Wait τ)} : m.phase = .step →
      m.ahead = i :: is → m.world.takeDue i.id = (next.world, due) → next.phase = .step →
      next.ahead = is →
      next.agenda = due.map (.resume i.id i.object) ++
        (m.world.invocations i none (· == .step)).map .start → Advances m next
  /-- After the step phase. -/
  | late (starts : List Invocation) : m.phase ≠ .create → m.ahead = [] → next.phase ≠ .create →
      next.ahead = [] → next.agenda = starts.map .start → Advances m next

/-- A step goes on in its phase or to a later one. -/
theorem Moved.advances (moved : Moved m next) (coherent : m.Coherent) : Advances m next := by
  have passed := coherent.passed
  cases moved with
  | walk _ | finish _ | park _ | halt _ | fail _ => exact .within rfl rfl (List.suffix_refl _)
  | pass _ | drop _ | start _ _ | resume _ _ => exact .within rfl rfl (List.suffix_cons _ _)
  | create => exact .create rfl rfl rfl rfl rfl
  | created => exact .created rfl rfl rfl rfl
  | step taken => exact .step rfl rfl taken rfl rfl rfl
  | stepped => exact .late _ nofun rfl nofun rfl rfl
  | handle _ _ _ => exact .late _ nofun (passed nofun nofun) nofun (passed nofun nofun) rfl
  | collided | handled _ | commit | transition _ | transitionFailed _ | request _ | requestFailed _
  | close => exact .late [] nofun (passed nofun nofun) nofun (passed nofun nofun) rfl

/-- While turns are listed, the phase stays, and at most the first of them is taken. -/
theorem Moved.listed (moved : Moved m next) (listed : m.agenda ≠ []) :
    next.phase = m.phase ∧ next.ahead = m.ahead ∧
      (m.walking ≠ none ∧ next.agenda = m.agenda ∨
        m.walking = none ∧ ∃ turn, m.agenda = turn :: next.agenda) := by
  cases moved with
  | walk _ | finish _ | park _ | halt _ | fail _ => exact ⟨rfl, rfl, .inl ⟨nofun, rfl⟩⟩
  | pass _ | drop _ | start _ _ | resume _ _ => exact ⟨rfl, rfl, .inr ⟨rfl, _, rfl⟩⟩
  | create | created | step _ | stepped | collided | handle _ _ _ | handled _ | commit | transition _
  | transitionFailed _ | request _ | requestFailed _ | close => exact absurd rfl listed

/-- A tick that has come to its end has nothing left to do. -/
theorem Moved.finished (moved : Moved m next) (coherent : m.Coherent)
    (ending : next.ending = some .finished) : next.phase = .close ∧ next.ahead = [] ∧ next.agenda = [] := by
  cases moved with
  | close => exact ⟨rfl, coherent.passed nofun nofun, rfl⟩
  | transitionFailed failed => exact absurd (Option.some.inj ending) failed
  | requestFailed failed => exact absurd (Option.some.inj ending) failed
  | walk _ | finish _ | park _ | halt _ | fail _ | pass _ | drop _ | start _ _ | resume _ _ | create
  | created | step _ | stepped | collided | handle _ _ _ | handled _ | commit | transition _
  | request _ => cases ending

/-- A tick that has finished is in its last phase, with nothing left to do. -/
theorem steps_closed {w : World τ} {delta : τ} (coherent : w.Coherent) (inside : Steps (begin w delta) m)
    (finished : m.ending = some .finished) : m.phase = .close ∧ m.ahead = [] ∧ m.agenda = [] := by
  cases inside with
  | refl =>
    rw [begin_ending] at finished
    cases finished
  | tail inside stepped => exact (step_moved stepped).finished (steps_coherent coherent inside) finished

/-- A tick that an action has ended leaves a run that has stopped. -/
theorem Moved.halted (moved : Moved m next) (ending : next.ending = some .halted) :
    next.world.status.state = .stopped := by
  cases moved with
  | halt strode =>
    cases strode with
    | halt _ _ acted =>
      obtain ⟨message, _, rfl⟩ := World.act_halt acted
      rfl
  | transitionFailed _ => exact absurd (Option.some.inj ending) (World.stepTransition_unhalted _)
  | requestFailed _ => exact absurd (Option.some.inj ending) (World.followRequest_unhalted _)
  | walk _ | finish _ | park _ | fail _ | pass _ | drop _ | start _ _ | resume _ _ | create | created
  | step _ | stepped | collided | handle _ _ _ | handled _ | commit | transition _ | request _
  | close => cases ending

/-! ### what a step notes of waits and of Step events -/

/-- A wait is resumed at its turn only, and if its instance is not destroyed. -/
theorem Moved.resumptions (moved : Moved m next) :
    next.world.resumptions v wait = m.world.resumptions v wait ∨
    ∃ (object : Nat) (x : Wait τ) (rest : List (Turn τ)), m.walking = none ∧
      m.agenda = .resume v.actor object x :: rest ∧ m.world.isDestroyed v.actor = false ∧
      x.slot = wait.slot ∧ x.issued = wait.issued := by
  obtain ⟨entries, journal, notes, one⟩ := moved.notes
  rw [World.resumptions_append journal]
  -- a walk notes no resumption; otherwise the step notes one thing only
  by_cases resumed : ∃ h ∈ entries, Happening.resumes v wait h = true
  · obtain ⟨h, listed, resumes⟩ := resumed
    right
    cases notes h listed with
    | resumed idle turn present =>
      simp only [Happening.resumes, Bool.and_eq_true, beq_iff_eq] at resumes
      obtain ⟨⟨rfl, slot⟩, issued⟩ := resumes
      exact ⟨_, _, _, idle, turn, present, slot, issued⟩
    | performed _ | suspended _ _ _ _ _ | started _ _ _ | handled _ => cases resumes
  · left
    have none : entries.reverse.filter (Happening.resumes v wait) = [] := by
      rw [List.filter_eq_nil_iff]
      intro h listed resumes
      exact resumed ⟨h, List.mem_reverse.mp listed, resumes⟩
    rw [none, List.append_nil]

/-- A step starts a Step event of an instance only at its turn. -/
theorem Moved.quiet (moved : Moved m next) {id : Nat} (quiet : m.world.Quiet id)
    (unready : ∀ u rest, m.agenda = .start u :: rest → u.actor = id →
      u.slot ∉ m.world.slots u.object (· == .step)) : next.world.Quiet id := by
  obtain ⟨entries, journal, notes, _⟩ := moved.notes
  intro u started mine
  have slots : next.world.slots u.object (· == .step) = m.world.slots u.object (· == .step) := by
    simp only [World.slots, moved.sameGame.program]
  rw [slots]
  rw [World.happenings, journal, List.mem_reverse] at started
  rcases List.mem_append.mp started with new | old
  · cases notes _ new with
    | started _ turn _ => exact unready u _ turn mine
  · exact quiet u (List.mem_reverse.mpr old) mine

/-! ### turns that are still to come -/

/-- The turn of an invocation in the step phase is still to come: its instance has not been handled, or
its wait is about to be resumed. -/
def Awaits (m : Moment τ) (v : Invocation) : Prop :=
  m.phase = .create ∨ (∃ i ∈ m.ahead, i.id = v.actor) ∨
    ∃ object wait, .resume v.actor object wait ∈ m.agenda ∧ wait.slot = v.slot

/-- A turn that is no longer awaited is never awaited again. -/
theorem Moved.turned (moved : Moved m next) (coherent : m.Coherent) (turned : ¬ m.Awaits v) :
    ¬ next.Awaits v := by
  simp only [Awaits, not_or] at turned ⊢
  obtain ⟨notCreate, handled, noTurn⟩ := turned
  cases moved.advances coherent with
  | within phase ahead agenda =>
    refine ⟨phase ▸ notCreate, ahead ▸ handled, ?_⟩
    rintro ⟨object, wait, listed, slot⟩
    exact noTurn ⟨object, wait, agenda.subset listed, slot⟩
  | create phase _ _ _ _ => exact absurd phase notCreate
  | created phase _ _ _ => exact absurd phase notCreate
  | @step i is due _ ahead _ phase rest agenda =>
    -- the waits that end belong to the instance that is handled, which is another one
    have others : i.id ≠ v.actor := fun mine => handled ⟨i, ahead ▸ List.mem_cons_self, mine⟩
    refine ⟨by rw [phase]; nofun, ?_, ?_⟩
    · rintro ⟨j, listed, mine⟩
      rw [rest] at listed
      exact handled ⟨j, ahead ▸ List.mem_cons_of_mem _ listed, mine⟩
    · rintro ⟨object, wait, listed, _⟩
      rw [agenda] at listed
      simp [others] at listed
  | late starts _ _ phase ahead agenda =>
    refine ⟨phase, by rw [ahead]; simp, ?_⟩
    rintro ⟨object, wait, listed, _⟩
    rw [agenda] at listed
    simp at listed

end Moment

/-- A tick that was halted has stopped the run. -/
theorem World.tick_halted {w : World τ} [Scalar τ] {delta : τ} (halted : (w.tick delta).ending = .halted) :
    (w.tick delta).world.status.state = .stopped := by
  obtain ⟨last, inside, world, ending⟩ := Moment.tick_passes w delta
  rw [← world]
  refine inside.invariant (P := fun m => m.ending = some .halted → m.world.status.state = .stopped) ?_ ?_
    (ending.trans (congrArg some halted))
  · intro ended
    rw [Moment.begin_ending] at ended
    cases ended
  · exact fun moved _ => moved.halted

end Gameplay
