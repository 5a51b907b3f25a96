import Gameplay.Proofs.Encounters

/-!
# Plans of a tick

The turns of a tick are the invocations that it starts and the waits that it resumes, in this order. Each
phase arranges a plan. `Adds` says that a part of a tick takes turns of a plan only, and in its order; such
parts compose as the functions of the tick do, so the order of the plans is the order of the turns.

## Main results

`stepped_adds`: before movement the turns are those of Create events, then instance by instance those of its
waits and of its Step events, in strictly ascending order.
`customRounds_adds`: the last turns are those of custom events.
-/

namespace Gameplay

variable {τ : Type}

/-- What holds after a part of a tick, and is kept by the next one, holds after both. -/
theorem Played.andThen_keeps {P : World τ → Prop} {p : Played τ} {f : World τ → Played τ} (first : P p.world)
    (kept : ∀ w, P w → P (f w).world) : P (p.andThen f).world := by
  unfold andThen
  split
  · exact kept _ first
  · exact first

/-- The turn that was taken, if something that happened was one. -/
def Happening.turn? : Happening τ → Option (Turn τ)
  | .started v => some (.start v)
  | .resumed v wait => some (.resume v.actor v.object wait)
  | _ => none

namespace Turn

def starts? : Turn τ → Option Invocation
  | .start v => some v
  | .resume _ _ _ => none

theorem mem_starts {turns : List (Turn τ)} {v : Invocation} :
    v ∈ turns.filterMap starts? ↔ .start v ∈ turns := by
  rw [List.mem_filterMap]
  constructor
  · rintro ⟨turn, taken, same⟩
    cases turn with
    | start u =>
      cases same
      exact taken
    | resume _ _ _ => cases same
  · exact fun taken => ⟨_, taken, rfl⟩

def actor : Turn τ → Nat
  | .start v => v.actor
  | .resume actor _ _ => actor

/-- Where a turn stands in the step phase. The waits of an instance come before its Step events. -/
def place : Turn τ → List Nat
  | .start v => [v.actor, 1, v.slot]
  | .resume actor _ wait => [actor, 0, wait.slot]

/-- A turn of the step phase: a Step event, or a wait whose time has passed. -/
inductive OfStep [LE τ] (p : Program) : Turn τ → Prop
  | start {v : Invocation} : v.partner = none → p.trigger? v.object v.slot = some .step → OfStep p (.start v)
  | resume {actor object : Nat} {wait : Wait τ} : wait.duration ≤ wait.elapsed →
      OfStep p (.resume actor object wait)

end Turn

namespace World

/-- The turns of the last tick, in order. -/
def turns (w : World τ) : List (Turn τ) := w.happenings.filterMap Happening.turn?

/-- The invocations that the last tick has started, in order. -/
def starts (w : World τ) : List Invocation := w.turns.filterMap Turn.starts?

theorem turns_note (w : World τ) (h : Happening τ) : (w.note h).turns = w.turns ++ h.turn?.toList := by
  cases turn : h.turn? <;> simp [turns, happenings, note, turn]

theorem SameRun.turns {w w' : World τ} (same : w.SameRun w') : w'.turns = w.turns := by
  rw [World.turns, happenings, same.journal, World.turns, happenings]

/-! ### plans -/

/-- From a world on, something takes turns of a plan only, and in the order of the plan. -/
structure Adds (w : World τ) (p : Played τ) (plan : List (Turn τ)) : Prop where
  program : p.world.program = w.program
  turns : ∃ played, played.Sublist plan ∧ p.world.turns = w.turns ++ played

namespace Adds

variable {w : World τ} {p : Played τ} {plan later : List (Turn τ)}

theorem nothing (w : World τ) (plan : List (Turn τ)) : Adds w (.finished w) plan :=
  ⟨rfl, [], List.nil_sublist plan, (List.append_nil _).symm⟩

theorem more (adds : Adds w p later) (plan : List (Turn τ)) : Adds w p (plan ++ later) := by
  obtain ⟨played, listed, turns⟩ := adds.turns
  exact ⟨adds.program, played, listed.trans (List.sublist_append_right plan later), turns⟩

/-- Parts that are played one after the other add to the turns one after the other. -/
theorem andThen {f : World τ → Played τ} (adds : Adds w p plan)
    (goes : p.ending = .finished → Adds p.world (f p.world) later) :
    Adds w (p.andThen f) (plan ++ later) := by
  obtain ⟨program, played, listed, turns⟩ := adds
  unfold Played.andThen
  split
  next finished =>
    obtain ⟨program', played', listed', turns'⟩ := goes finished
    refine ⟨program'.trans program, played ++ played', listed.append listed', ?_⟩
    rw [turns', turns, List.append_assoc]
  next early => exact ⟨program, played, listed.trans (List.sublist_append_left plan later), turns⟩

/-- What is not planned is not started. -/
theorem unplanned (adds : Adds w p plan) {v : Invocation} (absent : .start v ∉ plan) :
    p.world.starts.count v = w.starts.count v := by
  obtain ⟨_, played, listed, turns⟩ := adds
  have none : (played.filterMap Turn.starts?).count v = 0 := by
    apply List.count_eq_zero_of_not_mem
    exact fun started => absent (listed.subset (Turn.mem_starts.mp started))
  rw [starts, turns, List.filterMap_append, List.count_append, none, Nat.add_zero, starts]

end Adds

variable [Scalar τ] {w w' : World τ}

/-! ### what a walk leaves of the turns -/

theorem Strode.turns {v : Invocation} {frames : List Frame} {s : Stride τ}
    (strode : Strode v w frames w' s) : w'.turns = w.turns := by
  obtain ⟨w₀, status, entries, change, rfl, performed⟩ := strode.acted
  have none : entries.reverse.filterMap Happening.turn? = [] := by
    apply List.filterMap_eq_nil_iff.mpr
    intro h listed
    obtain ⟨action, rfl⟩ := performed h (List.mem_reverse.mp listed)
    rfl
  simp only [World.turns, happenings, List.reverse_append, List.filterMap_append, none, List.append_nil,
    change.journal]

/-- A walk is one turn, so no other is taken in it. -/
theorem walkWithin_turns (v : Invocation) (steps : Nat) (frames : List Frame) (w : World τ) :
    (walkWithin v steps frames w).1.turns = w.turns := by
  induction steps generalizing frames w with
  | zero => rfl
  | succ steps ih =>
    rw [walkWithin_succ]
    split
    next strode => rw [ih, (stride_strode strode).turns]
    next strode => exact (stride_strode strode).turns

theorem proceed_turns (v : Invocation) (frames : List Frame) (w : World τ) :
    (w.proceed v frames).world.turns = w.turns := by
  have kept := walkWithin_turns v (w.program.steps frames) frames w
  unfold proceed walk
  generalize walkWithin v (w.program.steps frames) frames w = walked at kept ⊢
  obtain ⟨w', result⟩ := walked
  cases result with
  | finished | halted | failed cause => exact kept
  | suspended duration left =>
    -- a wait that is parked is noted, but it is no turn
    refine ((w'.modify v.actor _).turns_note _).trans ?_
    exact (List.append_nil _).trans kept

/-! ### phases -/

theorem start_adds (v : Invocation) (w : World τ) : Adds w (w.start v) [.start v] := by
  unfold start
  split
  · exact .nothing w _
  · refine ⟨proceed_program _ _ _, [.start v], List.Sublist.refl _, ?_⟩
    rw [proceed_turns, turns_note]
    rfl

theorem startAll_adds (vs : List Invocation) (w : World τ) :
    Adds w (startAll vs w) (vs.map .start) := by
  induction vs generalizing w with
  | nil => exact .nothing w _
  | cons v vs ih =>
    simp only [startAll, List.map_cons]
    split
    · -- what is barred takes no turn, though it was planned
      exact (ih w).more [.start v]
    · exact (start_adds v w).andThen fun _ => ih _

theorem resumeAll_adds (i : Instance τ) (waits : List (Wait τ)) (w : World τ) :
    Adds w (resumeAll i waits w) (waits.map (.resume i.id i.object)) := by
  induction waits generalizing w with
  | nil => exact .nothing w _
  | cons wait waits ih =>
    simp only [resumeAll, List.map_cons]
    split
    · -- the waits of a destroyed instance are left
      exact .nothing w _
    · have resumed : Adds w (w.resume i.id i.object wait) [.resume i.id i.object wait] := by
        refine ⟨proceed_program _ _ _, [.resume i.id i.object wait], List.Sublist.refl _, ?_⟩
        rw [resume, proceed_turns, turns_note]
        rfl
      exact resumed.andThen fun _ => ih _

/-- The Create events of all instances that have had none yet, in ascending order. -/
def createPlan (w : World τ) : List Invocation :=
  (w.live.filter (·.fresh)).flatMap (w.invocations · none (· == .create))

omit [Scalar τ] in
theorem mem_createPlan {v : Invocation} : v ∈ w.createPlan ↔
    ∃ i ∈ w.live, i.fresh = true ∧ v ∈ w.invocations i none (· == .create) := by
  simp only [createPlan, List.mem_flatMap, List.mem_filter, and_assoc]

omit [Scalar τ] in
theorem createPlan_creates {v : Invocation} (planned : v ∈ w.createPlan) :
    v.partner = none ∧ w.program.trigger? v.object v.slot = some .create := by
  obtain ⟨i, _, _, arranged⟩ := mem_createPlan.mp planned
  obtain ⟨slot, trigger, rfl, found, isCreate⟩ := mem_invocations.mp arranged
  cases beq_iff_eq.mp isCreate
  exact ⟨rfl, found⟩

omit [Scalar τ] in
/-- The invocations of one instance after the other. -/
theorem flatMap_ascending {is : List (Instance τ)} (ascending : is.Pairwise fun i j => i.id < j.id)
    (wanted : Trigger → Bool) :
    (is.flatMap (w.invocations · none wanted)).Pairwise (·.place < ·.place) := by
  refine List.pairwise_flatMap.mpr ⟨fun i _ => invocations_ascending w i _ _, ?_⟩
  refine ascending.imp fun smaller => ?_
  intro u first v second
  obtain ⟨_, _, rfl, _⟩ := mem_invocations.mp first
  obtain ⟨_, _, rfl, _⟩ := mem_invocations.mp second
  exact List.cons_lt_cons_iff.mpr (.inl smaller)

omit [Scalar τ] in
theorem createPlan_ascending (unique : (w.instances.map (·.id)).Nodup) :
    w.createPlan.Pairwise (·.place < ·.place) :=
  flatMap_ascending ((live_ascending unique).filter _) _

/-- The create phase goes through the instances in their order. -/
theorem createEach_adds (is : List (Instance τ)) (w : World τ) :
    Adds w (createEach is w) ((is.flatMap (w.invocations · none (· == .create))).map .start) := by
  induction is generalizing w with
  | nil => exact .nothing w _
  | cons i is ih =>
    -- the instance that is handled is no longer fresh, which its invocations do not depend on
    have created : Adds w (startAll (w.invocations i none (· == .create))
        (w.modify i.id fun i => { i with fresh := false }))
        ((w.invocations i none (· == .create)).map .start) := by
      obtain ⟨program, turns⟩ := startAll_adds (w.invocations i none (· == .create))
        (w.modify i.id fun i => { i with fresh := false })
      exact ⟨program, turns⟩
    rw [List.flatMap_cons, List.map_append]
    refine created.andThen fun _ => ?_
    have rest := ih (startAll (w.invocations i none (· == .create))
      (w.modify i.id fun i => { i with fresh := false })).world
    have same := fun i => Moment.invocations_program created.program i none (· == .create)
    simp only [same] at rest
    exact rest

theorem takeDue_same {id : Nat} {due : List (Wait τ)} (taken : w.takeDue id = (w', due)) :
    w'.program = w.program ∧ w'.turns = w.turns := by
  rcases takeDue_cases taken with ⟨_, rfl, _⟩ | ⟨i, _, _, rfl⟩
  · exact ⟨rfl, rfl⟩
  · exact ⟨rfl, rfl⟩

/-- The turns of one instance in the step phase. -/
theorem handle_adds {i : Instance τ} {due : List (Wait τ)} (coherent : w.Coherent)
    (taken : w.takeDue i.id = (w', due)) :
    ∃ plan, Adds w ((resumeAll i due w').andThen fun w => startAll (w.invocations i none (· == .step)) w)
        plan ∧ plan.Pairwise (·.place < ·.place) ∧ ∀ t ∈ plan, t.OfStep w.program ∧ t.actor = i.id := by
  obtain ⟨program, turns⟩ := takeDue_same taken
  have resumed : Adds w (resumeAll i due w') (due.map (.resume i.id i.object)) := by
    have adds := resumeAll_adds i due w'
    exact ⟨adds.program.trans program, turns ▸ adds.turns⟩
  refine ⟨due.map (.resume i.id i.object) ++ (w.invocations i none (· == .step)).map .start,
    resumed.andThen fun _ => ?_, ?_, ?_⟩
  · rw [Moment.invocations_program resumed.program]
    exact startAll_adds _ _
  · refine List.pairwise_append.mpr ⟨?_, ?_, ?_⟩
    · refine List.pairwise_map.mpr ((due_ascending coherent taken).imp fun smaller => ?_)
      simp [Turn.place, List.cons_lt_cons_iff, smaller]
    · have ascending := w.invocations_ascending i none (· == .step)
      refine List.pairwise_map.mpr (ascending.imp_of_mem fun {u v} first second smaller => ?_)
      obtain ⟨slot, _, rfl, _⟩ := mem_invocations.mp first
      obtain ⟨slot', _, rfl, _⟩ := mem_invocations.mp second
      simpa [Invocation.place, Turn.place, List.cons_lt_cons_iff] using smaller
    · -- what is resumed comes before what is started
      intro x resumes y starts
      obtain ⟨wait, _, rfl⟩ := List.mem_map.mp resumes
      obtain ⟨v, listed, rfl⟩ := List.mem_map.mp starts
      obtain ⟨slot, _, rfl, _⟩ := mem_invocations.mp listed
      simp [Turn.place, List.cons_lt_cons_iff]
  · intro t planned
    rcases List.mem_append.mp planned with resumes | starts
    · obtain ⟨wait, listed, rfl⟩ := List.mem_map.mp resumes
      rcases takeDue_cases taken with ⟨_, _, rfl⟩ | ⟨own, _, rfl, _⟩
      · cases listed
      · exact ⟨.resume (Waits.mem_due.mp listed).2.1, rfl⟩
    · obtain ⟨v, listed, rfl⟩ := List.mem_map.mp starts
      obtain ⟨slot, trigger, rfl, found, isStep⟩ := mem_invocations.mp listed
      cases beq_iff_eq.mp isStep
      exact ⟨.start rfl found, rfl⟩

/-- The step phase goes through the instances in their order. -/
theorem stepEach_adds {is : List (Instance τ)}
    (coherent : Moment.Coherent ⟨w, .step, none, [], is, none⟩)
    (ascending : is.Pairwise fun i j => i.id < j.id) :
    ∃ plan, Adds w (stepEach is w) plan ∧ plan.Pairwise (·.place < ·.place) ∧
      ∀ t ∈ plan, t.OfStep w.program ∧ ∃ i ∈ is, i.id = t.actor := by
  induction is generalizing w with
  | nil => exact ⟨[], .nothing w _, .nil, nofun⟩
  | cons i is ih =>
    obtain ⟨before, rest⟩ := List.pairwise_cons.mp ascending
    generalize taken : w.takeDue i.id = handled
    obtain ⟨aged, due⟩ := handled
    simp only [stepEach, taken]
    obtain ⟨plan, adds, order, own⟩ := handle_adds coherent.world taken
    generalize played : (resumeAll i due aged).andThen (fun w =>
      startAll (w.invocations i none (· == .step)) w) = first at adds
    -- the instances that are left have their turns only if this one's came to their end
    by_cases finished : first.ending = .finished
    · have steps := (Moment.handle_reaches i is taken).goes
      rw [played] at steps
      have coherent' := (steps finished).invariant coherent fun moved coherent => coherent.moved moved
      obtain ⟨later, addsLater, orderLater, ownLater⟩ := ih coherent' rest
      refine ⟨plan ++ later, adds.andThen fun _ => addsLater, ?_, ?_⟩
      · refine List.pairwise_append.mpr ⟨order, orderLater, fun x here y there => ?_⟩
        obtain ⟨j, listed, same⟩ := (ownLater y there).2
        have smaller : x.actor < y.actor := by
          rw [(own x here).2, ← same]
          exact before j listed
        cases x <;> cases y <;> exact List.cons_lt_cons_iff.mpr (.inl smaller)
      · intro t planned
        rcases List.mem_append.mp planned with here | there
        · exact ⟨(own t here).1, i, List.mem_cons_self, (own t here).2.symm⟩
        · obtain ⟨ofStep, j, listed, same⟩ := ownLater t there
          exact ⟨adds.program ▸ ofStep, j, List.mem_cons_of_mem _ listed, same⟩
    · refine ⟨plan ++ [], adds.andThen fun ended => absurd ended finished, ?_, fun t planned => ?_⟩
      · rwa [List.append_nil]
      · rw [List.append_nil] at planned
        exact ⟨(own t planned).1, i, List.mem_cons_self, (own t planned).2.symm⟩

/-- Rounds of custom events start invocations for custom events only. -/
theorem customRounds_adds (rounds : Nat) (w : World τ) :
    ∃ plan : List Invocation, Adds w (customRounds rounds w) (plan.map .start) ∧
      ∀ v ∈ plan, v.partner = none ∧ ∃ name source, w.program.trigger? v.object v.slot =
        some (.custom name source) := by
  induction rounds generalizing w with
  | zero => exact ⟨[], .nothing w _, nofun⟩
  | succ rounds ih =>
    simp only [customRounds]
    split
    · exact ⟨[], .nothing w _, nofun⟩
    · let emits := w.pending.emits.reverse
      let taken := { w with pending := { w.pending with emits := [] } }.note (.handled emits)
      let starts := taken.customInvocations emits
      have first : Adds w (startAll starts taken) (starts.map .start) := by
        obtain ⟨program, played, listed, turns⟩ := startAll_adds starts taken
        refine ⟨program, played, listed, ?_⟩
        rw [turns, turns_note]
        exact congrArg (· ++ played) (List.append_nil _)
      -- a later round plans for the instances that this one leaves
      obtain ⟨rest, adds, customs⟩ := ih (startAll starts taken).world
      refine ⟨starts ++ rest, ?_, fun v listed => ?_⟩
      · rw [List.map_append]
        exact first.andThen fun _ => adds
      · rcases List.mem_append.mp listed with now | later
        · obtain ⟨e, _, listed⟩ := List.mem_flatMap.mp now
          obtain ⟨i, _, listed⟩ := List.mem_flatMap.mp listed
          obtain ⟨slot, trigger, rfl, found, answers⟩ := mem_invocations.mp listed
          cases trigger with
          | custom name source => exact ⟨rfl, name, source, found⟩
          | create | step | collision target => cases answers
        · rw [first.program] at customs
          exact customs v later

/-! ### the events of a tick -/

theorem stepped_adds
    (coherent : Moment.Coherent ⟨w, .create, none, [], w.live.filter (·.fresh), none⟩) :
    ∃ steps : List (Turn τ), Adds w (w.createPhase.andThen stepPhase) (w.createPlan.map .start ++ steps) ∧
      steps.Pairwise (·.place < ·.place) ∧ ∀ t ∈ steps, t.OfStep w.program := by
  have created : Adds w w.createPhase (w.createPlan.map .start) := createEach_adds (w.live.filter (·.fresh)) w
  by_cases finished : w.createPhase.ending = .finished
  · have steps := (Moment.create_reaches (w.live.filter (·.fresh)) w).goes finished
    have coherent' := steps.invariant coherent fun moved coherent => coherent.moved moved
    obtain ⟨plan, adds, ascending, ofStep⟩ := stepEach_adds coherent' (live_ascending coherent'.world.ids)
    have ofStep' : ∀ t ∈ plan, t.OfStep w.program :=
      fun t planned => created.program ▸ (ofStep t planned).1
    exact ⟨plan, created.andThen fun _ => adds, ascending, ofStep'⟩
  · exact ⟨[], created.andThen fun ended => absurd ended finished, .nil, nofun⟩

end World

end Gameplay
