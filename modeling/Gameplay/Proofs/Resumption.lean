import Gameplay.Proofs.Turns

/-!
# A wait through a tick

A wait that an instance holds when a tick begins is resumed in this tick if and only if its time has then
passed and its instance comes to its turn in the step phase.

## Main result

`tick_resumes`: what a tick does with a wait that is held when it begins.

## Proof strategy

`Track` lists the states of the wait: its instance is still to be handled, its turn is about to come, it
goes on, it was resumed, or its instance was destroyed before its turn. Every step leads from one of them
to one of them (`Track.moved`); the states at the end of the tick give the result.
-/

namespace Gameplay

variable {τ : Type} [Scalar τ]

/-- An instance, if it is there, has the object of an invocation and holds a wait. -/
def World.Keeps (w : World τ) (v : Invocation) (wait : Wait τ) : Prop :=
  w.Each v.actor fun object waits => object = v.object ∧ wait ∈ waits

/-- No wait of an invocation is held that was issued in a certain tick. -/
def World.Clear (w : World τ) (v : Invocation) (issued : Nat) : Prop :=
  w.Each v.actor fun _ waits => ∀ x ∈ waits, x.slot = v.slot → x.issued ≠ issued

/-- A step that resumes a wait of an invocation: its instance is not destroyed, no Step event of its
instance has been started in this tick, and what the wait has left is walked next. -/
structure Moment.Resumes (v : Invocation) (wait : Wait τ) (m next : Moment τ) : Prop where
  stepped : m.step = some next
  alive : m.world.Alive v.actor
  quiet : m.world.Quiet v.actor
  noted : next.world.journal = .resumed v wait :: m.world.journal
  walks : next.walking = some ⟨v, m.world.program.steps wait.frames, wait.frames⟩
  running : next.ending = none

namespace Moment

variable {first m next : Moment τ} {v : Invocation} {wait aged : Wait τ}

/-- The instance has still to be handled by the step phase, and nothing that the agenda starts is a Step
event of it. -/
def Early (m : Moment τ) (id : Nat) : Prop :=
  (m.phase = .create ∧ ∀ u, .start u ∈ m.agenda → u.slot ∈ m.world.slots u.object (· == .create)) ∨
  (m.phase = .step ∧ (∃ i ∈ m.ahead, i.id = id) ∧ ∀ u, .start u ∈ m.agenda → u.actor ≠ id)

/-- The states of a wait in a tick, from the first moment on. -/
inductive Track (first : Moment τ) (v : Invocation) (wait aged : Wait τ) (m : Moment τ) : Prop
  | early : m.Early v.actor → m.world.Keeps v wait → m.world.Quiet v.actor →
      m.world.resumptions v wait = [] → Track first v wait aged m
  | due : .resume v.actor v.object aged ∈ m.agenda → m.phase ≠ .create →
      (∀ i ∈ m.ahead, i.id ≠ v.actor) → aged.duration ≤ aged.elapsed → m.world.Quiet v.actor →
      m.world.resumptions v wait = [] → Track first v wait aged m
  | kept : ¬ m.Awaits v → ¬ aged.duration ≤ aged.elapsed → m.world.Keeps v aged →
      m.world.resumptions v wait = [] → Track first v wait aged m
  | resumed (partner : Option Nat) {before after : Moment τ} : ¬ m.Awaits v →
      aged.duration ≤ aged.elapsed →
      m.world.Clear v wait.issued →
      m.world.resumptions v wait = [.resumed { v with partner := partner } aged] →
      Steps first before → Resumes { v with partner := partner } aged before after → ¬ after.Awaits v →
      Track first v wait aged m
  | lost {before : Moment τ} : m.world.Dead v.actor → m.world.resumptions v wait = [] →
      Steps first before → before.Awaits v → before.world.Dead v.actor → Track first v wait aged m

/-- A moment of a tick, and a wait from an earlier tick with the time that has passed before this tick and
after it. -/
private structure Later (first : Moment τ) (v : Invocation) (wait aged : Wait τ) (m : Moment τ) : Prop where
  inside : Steps first m
  coherent : m.Coherent
  given : v.actor ≤ m.world.lastId
  slot : wait.slot = v.slot
  earlier : wait.issued ≠ m.world.clock.tick
  aged : aged = wait.age m.world.clock.delta m.world.clock.tick

private theorem Later.moved (here : Later first v wait aged m) (stepped : m.step = some next) :
    Later first v wait aged next := by
  have moved := step_moved stepped
  have clock : next.world.clock = m.world.clock := moved.sameGame.clock
  constructor
  · exact here.inside.tail stepped
  · exact here.coherent.moved moved
  · exact Nat.le_trans here.given (moved.lastId here.coherent)
  · exact here.slot
  · exact clock ▸ here.earlier
  · exact clock ▸ here.aged

private theorem Later.same (here : Later first v wait aged m) :
    aged.slot = wait.slot ∧ aged.issued = wait.issued := by
  rw [here.aged, Waits.age_same]
  exact ⟨rfl, rfl⟩

/-! ### what a state allows -/

omit [Scalar τ] in
theorem Early.awaits (early : m.Early v.actor) : m.Awaits v := by
  rcases early with ⟨phase, _⟩ | ⟨_, ahead, _⟩
  · exact .inl phase
  · exact .inr (.inl ahead)

omit [Scalar τ] in
/-- No turn starts a Step event of an instance that has still to be handled. -/
theorem Early.unready (early : m.Early v.actor) {u : Invocation} (listed : .start u ∈ m.agenda)
    (mine : u.actor = v.actor) : u.slot ∉ m.world.slots u.object (· == .step) := by
  rcases early with ⟨_, creates⟩ | ⟨_, _, others⟩
  · exact World.slots_disjoint (creates u listed)
  · exact absurd mine (others u listed)

omit [Scalar τ] in
/-- The slot of a turn is owed, so no wait of it is held. -/
theorem Coherent.unheld (coherent : m.Coherent) {object : Nat} {x y : Wait τ} {i : Instance τ}
    (listed : .resume i.id object x ∈ m.agenda) (member : i ∈ m.world.instances) (held : y ∈ i.waits) :
    y.slot ≠ x.slot := by
  intro same
  have owes : x.slot ∈ m.owed i.id := by
    apply List.mem_append_right
    rw [List.mem_filterMap]
    exact ⟨_, listed, by simp [Turn.slot?]⟩
  have distinct := List.nodup_append.mp (coherent.slots i member)
  exact distinct.2.2 _ owes _ (List.mem_map_of_mem held) same.symm

omit [Scalar τ] in
/-- The turn of a wait that is held has not come. -/
theorem Coherent.unlisted (coherent : m.Coherent) (keeps : m.world.Keeps v wait) {object : Nat} {x : Wait τ}
    (listed : .resume v.actor object x ∈ m.agenda) : x.slot ≠ wait.slot := by
  cases coherent.turns _ listed with
  | resume present _ _ =>
    obtain ⟨i, member, mine, _⟩ := present
    have held := (keeps i member mine).2
    exact (coherent.unheld (mine ▸ listed) member held).symm

omit [Scalar τ] in
/-- A slot has one turn at most. -/
theorem Coherent.single (coherent : m.Coherent) {id object object' : Nat} {x y : Wait τ}
    {rest : List (Turn τ)} (turn : m.agenda = .resume id object x :: rest)
    (listed : .resume id object' y ∈ rest) : y.slot ≠ x.slot := by
  intro same
  cases coherent.turns (.resume id object x) (turn ▸ List.mem_cons_self) with
  | resume present _ _ =>
    obtain ⟨i, member, rfl, _⟩ := present
    have distinct := (List.nodup_append.mp (coherent.slots i member)).1
    have owed := (List.nodup_append.mp distinct).2.1
    rw [turn, List.filterMap_cons_some (b := x.slot) (by simp [Turn.slot?])] at owed
    refine (List.nodup_cons.mp owed).1 ?_
    rw [List.mem_filterMap]
    exact ⟨_, listed, by simp [Turn.slot?, same]⟩

/-- The wait is not resumed while no turn of its slot is on the agenda. -/
private theorem unresumed (moved : Moved m next)
    (untimely : ∀ object x rest, m.walking = none → m.agenda = .resume v.actor object x :: rest →
      m.world.isDestroyed v.actor = false → x.slot ≠ wait.slot)
    (none : m.world.resumptions v wait = []) : next.world.resumptions v wait = [] := by
  rcases moved.resumptions with same | ⟨object, x, rest, idle, turn, present, slot, _⟩
  · exact same.trans none
  · exact absurd slot (untimely object x rest idle turn present)

private theorem dead_unresumed (moved : Moved m next) (coherent : m.Coherent) (dead : m.world.Dead v.actor)
    (none : m.world.resumptions v wait = []) : next.world.resumptions v wait = [] := by
  apply unresumed moved _ none
  intro object x rest _ turn present
  -- a wait whose turn it is belongs to an instance that is there
  cases coherent.turns _ (turn ▸ List.mem_cons_self) with
  | resume there _ _ =>
    obtain ⟨i, member, mine, _⟩ := there
    have destroyed := World.isDestroyed_iff coherent.world.ids member
    rw [mine, present, dead i member mine] at destroyed
    cases destroyed

/-! ### from state to state -/

/-- The step that handles the instance arranges the turn of the wait if it is due, and else keeps the wait with the
time that has passed added. -/
private theorem handled_moved (here : Later first v wait aged m) (stepped : m.step = some next)
    (keeps : m.world.Keeps v wait) (quiet : next.world.Quiet v.actor)
    (none : next.world.resumptions v wait = []) {i : Instance τ} {is : List (Instance τ)}
    {due : List (Wait τ)} (mine : i.id = v.actor) (ahead : m.ahead = i :: is)
    (taken : m.world.takeDue i.id = (next.world, due)) (phase : next.phase = .step)
    (ahead' : next.ahead = is)
    (agenda : next.agenda = due.map (.resume i.id i.object) ++
      (m.world.invocations i Option.none (· == .step)).map .start) :
    Track first v wait aged next := by
  have coherent := here.coherent
  have later := here.moved stepped
  obtain ⟨own, member, sameId, sameObject⟩ := coherent.ahead i (ahead ▸ List.mem_cons_self)
  obtain ⟨object, held⟩ := keeps own member (sameId.trans mine)
  have found : m.world.instance? i.id = some own :=
    sameId ▸ World.instance?_of_mem coherent.world.ids member
  rcases World.takeDue_cases taken with ⟨absent, _⟩ | ⟨other, found', ends, goesOn⟩
  · rw [found] at absent
    cases absent
  cases found.symm.trans found'
  have others : ∀ j ∈ next.ahead, j.id ≠ v.actor := by
    intro j listed same
    have distinct := coherent.distinct
    rw [ahead, List.map_cons] at distinct
    refine (List.nodup_cons.mp distinct).1 (List.mem_map.mpr ⟨j, ahead' ▸ listed, ?_⟩)
    exact same.trans mine.symm
  by_cases reached : aged.duration ≤ aged.elapsed
  · -- the wait ends: its turn is on the new agenda
    refine .due ?_ (by rw [phase]; nofun) others reached quiet none
    have earlier : aged.issued ≠ m.world.clock.tick := here.same.2 ▸ here.earlier
    have listed : aged ∈ due := ends ▸ Waits.mem_due.mpr ⟨⟨wait, held, here.aged.symm⟩, reached, earlier⟩
    rw [agenda, ← mine, ← object, sameObject]
    exact List.mem_append_left _ (List.mem_map_of_mem listed)
  · -- the wait goes on with the time of this tick
    have keeps' : next.world.Keeps v aged := by
      intro j there same
      rw [goesOn] at there
      obtain ⟨before, present, rfl⟩ := List.mem_map.mp there
      have only : before = own := by
        refine List.inj_on_of_nodup_map coherent.world.ids present member ?_
        rw [sameId, mine, ← same]
        split <;> rfl
      subst only
      rw [if_pos sameId]
      exact ⟨object, Waits.mem_kept.mpr ⟨⟨wait, held, here.aged.symm⟩, fun ends => absurd ends reached⟩⟩
    refine .kept ?_ reached keeps' none
    rintro (create | ⟨j, listed, same⟩ | ⟨object, x, listed, slot⟩)
    · rw [phase] at create
      cases create
    · exact others j listed same
    · exact later.coherent.unlisted keeps' listed (slot.trans (here.same.1.trans here.slot).symm)

/-- As long as an instance is not handled, it holds the waits that it held. -/
private theorem unhandled_keeps (here : Later first v wait aged m) (moved : Moved m next) {held : Wait τ}
    (keeps : m.world.Keeps v held)
    (others : ∀ head, m.phase = .step → m.ahead = head :: next.ahead → head.id ≠ v.actor) :
    next.world.Keeps v held := by
  apply moved.each here.coherent here.given keeps
  · rintro object waits new _ ⟨same, member⟩
    exact ⟨same, List.mem_append_left _ member⟩
  · intro head object waits phase ahead mine
    exact absurd mine (others head phase ahead)

omit [Scalar τ] in
private theorem Early.within {id : Nat} (early : m.Early id)
    (program : next.world.program = m.world.program) (phase : next.phase = m.phase)
    (ahead : next.ahead = m.ahead) (agenda : next.agenda <:+ m.agenda) : next.Early id := by
  rcases early with ⟨create, creates⟩ | ⟨step, there, others⟩
  · refine .inl ⟨phase.trans create, fun u listed => ?_⟩
    have slots := creates u (agenda.subset listed)
    simpa only [World.slots, program] using slots
  · exact .inr ⟨phase.trans step, ahead ▸ there, fun u listed => others u (agenda.subset listed)⟩

omit [Scalar τ] in
/-- Another instance is handled. -/
private theorem Early.step {id : Nat} (early : m.Early id) {i : Instance τ} {is : List (Instance τ)}
    {due : List (Wait τ)} (other : i.id ≠ id) (phase : m.phase = .step) (ahead : m.ahead = i :: is)
    (phase' : next.phase = .step) (ahead' : next.ahead = is)
    (agenda : next.agenda = due.map (.resume i.id i.object) ++
      (m.world.invocations i none (· == .step)).map .start) : next.Early id := by
  refine .inr ⟨phase', ?_, fun u listed => ?_⟩
  · rcases early with ⟨create, _⟩ | ⟨_, ⟨j, there, same⟩, _⟩
    · rw [phase] at create
      cases create
    · rw [ahead] at there
      rcases List.mem_cons.mp there with rfl | later
      · exact absurd same other
      · exact ⟨j, ahead' ▸ later, same⟩
  · -- what is arranged now belongs to the instance that is handled now
    rw [agenda] at listed
    have arranged : u ∈ m.world.invocations i none (· == .step) := by simpa using listed
    exact fun same => other ((World.invocations_own arranged).1.symm.trans same)

/-- A step of the early phases keeps the wait, ages it or arranges its turn. -/
private theorem early_moved (here : Later first v wait aged m) (stepped : m.step = some next)
    (early : m.Early v.actor) (keeps : m.world.Keeps v wait) (quiet : m.world.Quiet v.actor)
    (none : m.world.resumptions v wait = []) : Track first v wait aged next := by
  have moved := step_moved stepped
  have coherent := here.coherent
  have program := moved.sameGame.program
  have quiet' : next.world.Quiet v.actor :=
    moved.quiet quiet fun u rest turn mine => early.unready (turn ▸ List.mem_cons_self) mine
  have none' : next.world.resumptions v wait = [] := by
    apply unresumed moved _ none
    intro object x rest _ turn _
    exact coherent.unlisted keeps (turn ▸ List.mem_cons_self)
  cases moved.advances coherent with
  | within phase ahead agenda =>
    refine .early (early.within program phase ahead agenda)
      (unhandled_keeps here moved keeps fun head _ longer => ?_) quiet' none'
    -- no instance has been taken from those ahead
    have lengths := congrArg List.length longer
    rw [ahead, List.length_cons] at lengths
    omega
  | @create i is phase _ phase' _ agenda =>
    have other (head : Instance τ) (step : m.phase = .step) (_ : m.ahead = head :: next.ahead) :
        head.id ≠ v.actor := by
      rw [phase] at step
      cases step
    refine .early (.inl ⟨phase', fun u listed => ?_⟩) (unhandled_keeps here moved keeps other) quiet' none'
    rw [agenda] at listed
    have arranged : u ∈ m.world.invocations i Option.none (· == .create) := by simpa using listed
    simpa only [World.slots, program] using (World.invocations_own arranged).2
  | created phase phase' ahead agenda =>
    have other (head : Instance τ) (step : m.phase = .step) (_ : m.ahead = head :: next.ahead) :
        head.id ≠ v.actor := by
      rw [phase] at step
      cases step
    -- only instances that are not destroyed come into the step phase
    by_cases alive : m.world.Alive v.actor
    · obtain ⟨i, member, mine, present⟩ := alive
      have there : i ∈ next.ahead := ahead ▸ World.mem_live.mpr ⟨member, present⟩
      refine .early (.inr ⟨phase', ⟨i, there, mine⟩, ?_⟩) (unhandled_keeps here moved keeps other) quiet' none'
      rw [agenda]
      exact fun u listed => absurd listed List.not_mem_nil
    · have dead := World.not_alive.mp alive
      exact .lost (moved.dead coherent here.given dead) none' here.inside (.inl phase) dead
  | @step i is due phase ahead taken phase' ahead' agenda =>
    by_cases mine : i.id = v.actor
    · exact handled_moved here stepped keeps quiet' none' mine ahead taken phase' ahead' agenda
    · refine .early (early.step mine phase ahead phase' ahead' agenda)
        (unhandled_keeps here moved keeps fun head _ same => ?_) quiet' none'
      rw [ahead] at same
      cases same
      exact mine
  | late starts phase ahead _ _ _ =>
    -- the step phase is not over while the instance has still to be handled
    rcases early with ⟨create, _⟩ | ⟨_, ⟨j, there, _⟩, _⟩
    · exact absurd create phase
    · rw [ahead] at there
      cases there

/-- The wait's own turn: it is resumed, unless its instance has been destroyed. -/
private theorem turn_moved (here : Later first v wait aged m) (stepped : m.step = some next)
    {rest : List (Turn τ)} (idle : m.walking = none)
    (turn : m.agenda = .resume v.actor v.object aged :: rest) (phase : m.phase ≠ .create)
    (others : ∀ i ∈ m.ahead, i.id ≠ v.actor) (reached : aged.duration ≤ aged.elapsed)
    (quiet : m.world.Quiet v.actor) (none : m.world.resumptions v wait = []) :
    Track first v wait aged next := by
  have moved := step_moved stepped
  have coherent := here.coherent
  have listed : .resume v.actor v.object aged ∈ m.agenda := turn ▸ List.mem_cons_self
  have slot : aged.slot = v.slot := here.same.1.trans here.slot
  have inside := here.inside
  obtain ⟨i, member, mine, _⟩ : m.world.Has v.actor v.object := by
    cases coherent.turns _ listed with
    | resume present _ _ => exact present
  obtain ⟨w, phase', walking, agenda, ahead, ending⟩ := m
  cases idle
  cases turn
  cases moved with
  | drop destroyed =>
    have dead : w.Dead v.actor := by
      intro j present same
      rw [← World.isDestroyed_iff coherent.world.ids present, same]
      exact destroyed
    exact .lost dead none inside (.inr (.inr ⟨_, _, listed, slot⟩)) dead
  | @resume _ _ _ _ _ partner _ _ present same =>
    have alive : w.Alive v.actor := by
      refine ⟨i, member, mine, ?_⟩
      rw [← World.isDestroyed_iff coherent.world.ids member, mine]
      exact present
    have own : (⟨v.actor, v.object, aged.slot, partner⟩ : Invocation) = { v with partner := partner } := by
      rw [slot]
    rw [own] at stepped ⊢
    have turned (w : World τ) (walking : Option Walking) :
        ¬ Awaits ⟨w, phase', walking, rest, ahead, Option.none⟩ v := by
      rintro (create | ⟨j, there, same⟩ | ⟨object, x, later, same⟩)
      · exact phase create
      · exact others j there same
      · exact coherent.single rfl later (same.trans slot.symm)
    refine .resumed partner (turned _ _) reached ?_ ?_ inside ⟨stepped, alive, quiet, rfl, rfl, rfl⟩
      (turned _ _)
    · -- until it ends, the invocation that is resumed has no other wait
      intro j there same x held sameSlot
      have own : .resume j.id v.object aged ∈ Turn.resume v.actor v.object aged :: rest :=
        same ▸ List.mem_cons_self
      exact absurd (sameSlot.trans slot.symm) (coherent.unheld own there held)
    · have journal : (w.note (.resumed { v with partner := partner } aged)).journal =
          [.resumed { v with partner := partner } aged] ++ w.journal := rfl
      have noted := World.resumptions_append journal v wait
      rw [noted, none]
      simp [Happening.resumes, here.same.1, here.same.2]

/-- A turn that is arranged is taken, or its instance is lost before. -/
private theorem due_moved (here : Later first v wait aged m) (stepped : m.step = some next)
    (listed : .resume v.actor v.object aged ∈ m.agenda) (phase : m.phase ≠ .create)
    (others : ∀ i ∈ m.ahead, i.id ≠ v.actor) (reached : aged.duration ≤ aged.elapsed)
    (quiet : m.world.Quiet v.actor) (none : m.world.resumptions v wait = []) :
    Track first v wait aged next := by
  have moved := step_moved stepped
  -- as long as the turn is listed, nothing is started
  have quiet' : next.world.Quiet v.actor := by
    refine moved.quiet quiet fun u rest turn _ => ?_
    have order := here.coherent.order
    rw [turn] at order listed
    have owed := order.start_owes v.actor
    rw [List.filterMap_eq_nil_iff] at owed
    have none := owed (.resume v.actor v.object aged) (by simpa using listed)
    simp [Turn.slot?] at none
  obtain ⟨phase', ahead', ⟨walking, same⟩ | ⟨idle, head, turn⟩⟩ :=
    moved.listed (List.ne_nil_of_mem listed)
  · refine .due (same ▸ listed) (phase' ▸ phase) (ahead' ▸ others) reached quiet' ?_
    apply unresumed moved _ none
    intro object x rest idle
    exact absurd idle walking
  · rw [turn] at listed
    rcases List.mem_cons.mp listed with rfl | later
    · exact turn_moved here stepped idle turn phase others reached quiet none
    · refine .due later (phase' ▸ phase) (ahead' ▸ others) reached quiet' ?_
      apply unresumed moved _ none
      intro object x rest _ other _ same
      rw [turn] at other
      cases other
      exact here.coherent.single turn later (here.same.1.trans same.symm)

private theorem kept_moved (here : Later first v wait aged m) (stepped : m.step = some next)
    (turned : ¬ m.Awaits v) (reached : ¬ aged.duration ≤ aged.elapsed) (keeps : m.world.Keeps v aged)
    (none : m.world.resumptions v wait = []) : Track first v wait aged next := by
  have moved := step_moved stepped
  refine .kept (moved.turned here.coherent turned) reached ?_ ?_
  · refine unhandled_keeps here moved keeps fun head _ ahead mine => ?_
    exact turned (.inr (.inl ⟨head, ahead ▸ List.mem_cons_self, mine⟩))
  · apply unresumed moved _ none
    intro object x rest _ turn _
    rw [← here.same.1]
    exact here.coherent.unlisted keeps (turn ▸ List.mem_cons_self)

private theorem lost_moved (here : Later first v wait aged m) (stepped : m.step = some next)
    (dead : m.world.Dead v.actor) (none : m.world.resumptions v wait = []) {before : Moment τ}
    (inside : Steps first before) (awaits : before.Awaits v) (died : before.world.Dead v.actor) :
    Track first v wait aged next := by
  have moved := step_moved stepped
  exact .lost (moved.dead here.coherent here.given dead)
    (dead_unresumed moved here.coherent dead none) inside awaits died

/-- A wait that was resumed is not resumed again in the rest of the tick. -/
private theorem resumed_moved (here : Later first v wait aged m) (stepped : m.step = some next)
    {partner : Option Nat} {before after : Moment τ} (turned : ¬ m.Awaits v)
    (reached : aged.duration ≤ aged.elapsed)
    (clear : m.world.Clear v wait.issued)
    (once : m.world.resumptions v wait = [.resumed { v with partner := partner } aged])
    (inside : Steps first before) (resumes : Resumes { v with partner := partner } aged before after)
    (since : ¬ after.Awaits v) : Track first v wait aged next := by
  have moved := step_moved stepped
  refine .resumed partner (moved.turned here.coherent turned) reached ?_ ?_ inside resumes since
  · apply moved.each here.coherent here.given clear
    · intro object waits new issued old x held
      rcases List.mem_append.mp held with held | held
      · exact old x held
      · -- what is parked now was issued now
        cases List.mem_singleton.mp held
        exact fun _ same => here.earlier (same.symm.trans issued)
    · intro head object waits _ ahead mine
      exact absurd (.inr (.inl ⟨head, ahead ▸ List.mem_cons_self, mine⟩)) turned
  · rcases moved.resumptions with same | ⟨object, x, rest, _, turn, _, slot, _⟩
    · exact same.trans once
    · have listed : .resume v.actor object x ∈ m.agenda := turn ▸ List.mem_cons_self
      exact absurd (.inr (.inr ⟨object, x, listed, slot.trans here.slot⟩)) turned

/-- Wherever the wait stands, a step takes it to where it may stand next. -/
private theorem Track.moved (here : Later first v wait aged m) (stepped : m.step = some next)
    (track : Track first v wait aged m) : Track first v wait aged next := by
  cases track with
  | early early keeps quiet none => exact early_moved here stepped early keeps quiet none
  | due listed phase others reached quiet none =>
    exact due_moved here stepped listed phase others reached quiet none
  | kept turned reached keeps none => exact kept_moved here stepped turned reached keeps none
  | resumed partner turned reached clear once inside resumes since =>
    exact resumed_moved here stepped turned reached clear once inside resumes since
  | lost dead none inside awaits died => exact lost_moved here stepped dead none inside awaits died

/-! ### waits that are gone -/

/-- No wait of a slot that was issued in a certain tick is held or about to be resumed. -/
private structure Clear (v : Invocation) (issued : Nat) (m : Moment τ) : Prop where
  held : m.world.Clear v issued
  turns : ∀ object x, .resume v.actor object x ∈ m.agenda → x.slot = v.slot → x.issued ≠ issued

private theorem Clear.moved {issued : Nat} (clear : Clear v issued m) (moved : Moved m next)
    (coherent : m.Coherent) (given : v.actor ≤ m.world.lastId) (earlier : issued ≠ m.world.clock.tick) :
    Clear v issued next := by
  have aging (x : Wait τ) : (x.age m.world.clock.delta m.world.clock.tick).slot = x.slot ∧
      (x.age m.world.clock.delta m.world.clock.tick).issued = x.issued := by
    rw [Waits.age_same]
    exact ⟨rfl, rfl⟩
  constructor
  · apply moved.each coherent given clear.held
    · -- what is parked now was issued now
      intro object waits new issuedNow old x held
      rcases List.mem_append.mp held with held | held
      · exact old x held
      · cases List.mem_singleton.mp held
        exact fun _ same => earlier (same.symm.trans issuedNow)
    · intro head object waits _ _ _ old x held slot
      obtain ⟨⟨before, member, rfl⟩, _⟩ := Waits.mem_kept.mp held
      rw [(aging before).1] at slot
      rw [(aging before).2]
      exact old before member slot
  · intro object x listed slot
    cases moved.advances coherent with
    | within _ _ agenda => exact clear.turns object x (agenda.subset listed) slot
    | create _ _ _ _ agenda => rw [agenda] at listed; simp at listed
    | created _ _ _ agenda => rw [agenda] at listed; cases listed
    | late _ _ _ _ _ agenda => rw [agenda] at listed; simp at listed
    | @step i is due _ _ taken _ _ agenda =>
      rw [agenda] at listed
      simp only [List.mem_append, List.mem_map, reduceCtorEq, and_false, exists_false, or_false] at listed
      obtain ⟨x', ends, same⟩ := listed
      obtain ⟨head, _, rfl⟩ : i.id = v.actor ∧ i.object = object ∧ x' = x := by simpa using same
      rcases World.takeDue_cases taken with ⟨_, _, rfl⟩ | ⟨own, found, rfl, _⟩
      · cases ends
      · -- what ends now was held before
        obtain ⟨member, mine⟩ := World.instance?_some found
        obtain ⟨⟨before, held, rfl⟩, _⟩ := Waits.mem_due.mp ends
        rw [(aging before).1] at slot
        rw [(aging before).2]
        exact clear.held own member (mine.trans head) before held slot

end Moment

/-! ### a whole tick -/

namespace World

variable {w : World τ} {v : Invocation} {wait : Wait τ} {delta : τ}

/-- A tick handles an invocation: it does not belong to a transition, and until the turn of the
invocation in the step phase has come, the run goes on and the instance is there and not destroyed. -/
def Handles (w : World τ) (delta : τ) (v : Invocation) : Prop :=
  w.transition.isRunning = false ∧ ∀ m, Moment.Steps (.begin w delta) m → m.Awaits v →
    m.ending = none ∧ m.world.Alive v.actor

/-- What a tick does with a wait that is held when it begins. -/
inductive Resumes (w : World τ) (delta : τ) (v : Invocation) (wait aged : Wait τ) : Prop
  | resumed (partner : Option Nat) {before after : Moment τ} : w.Handles delta v →
      aged.duration ≤ aged.elapsed → (w.tick delta).world.Clear v wait.issued →
      (w.tick delta).world.resumptions v wait = [.resumed { v with partner := partner } aged] →
      Moment.Steps (.begin w delta) before →
      Moment.Resumes { v with partner := partner } aged before after → Resumes w delta v wait aged
  | goesOn : w.Handles delta v → ¬ aged.duration ≤ aged.elapsed → (w.tick delta).world.Keeps v aged →
      (w.tick delta).world.resumptions v wait = [] → Resumes w delta v wait aged
  | unhandled : ¬ w.Handles delta v → (w.tick delta).world.resumptions v wait = [] →
      Resumes w delta v wait aged

theorem begin_still (still : w.transition.isRunning = false) :
    Moment.begin w delta =
      let w := { w with clock := w.clock.advance delta, journal := [] }
      ⟨w, .create, none, [], w.live.filter (·.fresh), none⟩ := by
  simp only [Moment.begin, still, Bool.false_eq_true, if_false]

private theorem tick_track (coherent : w.Coherent) (given : v.actor ≤ w.lastId) (slot : wait.slot = v.slot)
    (earlier : wait.issued ≤ w.clock.tick) (keeps : w.Keeps v wait)
    (still : w.transition.isRunning = false) {m : Moment τ} (inside : Moment.Steps (.begin w delta) m) :
    let aged := wait.age (w.clock.advance delta).delta (w.clock.advance delta).tick
    Moment.Later (.begin w delta) v wait aged m ∧ Moment.Track (.begin w delta) v wait aged m := by
  intro aged
  induction inside with
  | refl =>
    have first := Moment.begin_coherent coherent delta
    rw [begin_still still] at first ⊢
    refine ⟨⟨.refl, first, given, slot, ?_, rfl⟩, .early (.inl ⟨rfl, nofun⟩) keeps nofun rfl⟩
    exact Nat.ne_of_lt (Nat.lt_succ_of_le earlier)
  | tail _ stepped ih =>
    obtain ⟨here, track⟩ := ih
    exact ⟨here.moved stepped, track.moved here stepped⟩

/-- Up to the moment at which the wait is resumed, the run goes on and the instance is not destroyed;
after it no turn of the wait is awaited. -/
private theorem handles_of_resumed (coherent : w.Coherent) (given : v.actor ≤ w.lastId)
    (still : w.transition.isRunning = false) {u : Invocation} (same : u.actor = v.actor)
    {before after : Moment τ} (inside : Moment.Steps (.begin w delta) before)
    (resumes : Moment.Resumes u wait before after) (since : ¬ after.Awaits v) : w.Handles delta v := by
  have running : before.ending = none := (Moment.step_moved resumes.stepped).running
  refine ⟨still, fun m steps awaits => ?_⟩
  have first := Moment.steps_coherent coherent steps
  rcases steps.total inside with earlier | later
  · -- a moment before the turn: the run went on, and a destroyed instance would have stayed so
    have goesOn : m.ending = none := by
      cases ended : m.ending with
      | none => rfl
      | some ending =>
        rw [earlier.ended ended, ended] at running
        cases running
    refine ⟨goesOn, ?_⟩
    by_contra gone
    have given' : v.actor ≤ m.world.lastId := by
      have grown := steps.lastId (Moment.begin_coherent coherent delta)
      rw [begin_still still] at grown
      exact Nat.le_trans given grown
    have dead := earlier.dead first given' (not_alive.mp gone)
    exact not_alive.mpr dead (same ▸ resumes.alive)
  · rcases Relation.ReflTransGen.cases_head later with rfl | ⟨next, stepped, rest⟩
    · exact ⟨running, same ▸ resumes.alive⟩
    · -- after the wait has been resumed, its turn is over
      rw [resumes.stepped] at stepped
      cases stepped
      have coherent' := Moment.steps_coherent coherent (inside.tail resumes.stepped)
      have still : ¬ m.Awaits v :=
        Moment.Steps.keeps (P := fun m => ¬ m.Awaits v) rest coherent' since Moment.Moved.turned
      exact absurd awaits still

/-- What a tick does with a wait that is held when it begins. -/
theorem tick_resumes (delta : τ) (coherent : w.Coherent) (given : v.actor ≤ w.lastId)
    (slot : wait.slot = v.slot) (earlier : wait.issued ≤ w.clock.tick) (keeps : w.Keeps v wait)
    (still : w.transition.isRunning = false) :
    w.Resumes delta v wait (wait.age (w.clock.advance delta).delta (w.clock.advance delta).tick) := by
  obtain ⟨last, inside, world, ending⟩ := Moment.tick_passes w delta
  obtain ⟨here, track⟩ := tick_track coherent given slot earlier keeps still inside
  have unhandled (awaits : last.Awaits v) : ¬ w.Handles delta v := by
    intro handles
    have running := (handles.2 last inside awaits).1
    rw [ending] at running
    cases running
  -- the last moment of the tick tells what has become of the wait
  cases track with
  | early early _ _ none => exact .unhandled (unhandled early.awaits) (world ▸ none)
  | due listed _ _ _ _ none =>
    -- a tick that ended with the turn still arranged was cut short
    have awaits : last.Awaits v := .inr (.inr ⟨_, _, listed, here.same.1.trans slot⟩)
    exact .unhandled (unhandled awaits) (world ▸ none)
  | kept _ reached keeps none =>
    by_cases handles : w.Handles delta v
    · exact .goesOn handles reached (world ▸ keeps) (world ▸ none)
    · exact .unhandled handles (world ▸ none)
  | resumed partner _ reached clear once inside resumes since =>
    have handles := handles_of_resumed (u := { v with partner := partner }) coherent given still rfl inside
      resumes since
    exact .resumed partner handles reached (world ▸ clear) (world ▸ once) inside resumes
  | lost _ none inside awaits died =>
    refine .unhandled (fun handles => ?_) (world ▸ none)
    exact not_alive.mpr died (handles.2 _ inside awaits).2

/-- A tick that does not handle an invocation ends the run, or its instance has been destroyed. -/
theorem tick_unhandled (coherent : w.Coherent) (given : v.actor ≤ w.lastId)
    (still : w.transition.isRunning = false) (unhandled : ¬ w.Handles delta v) :
    (w.tick delta).ending ≠ .finished ∨ (w.tick delta).world.Dead v.actor := by
  obtain ⟨last, inside, world, ending⟩ := Moment.tick_passes w delta
  have first := Moment.begin_coherent coherent delta
  -- some moment at which the turn is awaited is the last one, or the instance is not alive in it
  obtain ⟨m, steps, awaits, failed⟩ : ∃ m, Moment.Steps (.begin w delta) m ∧ m.Awaits v ∧
      ¬ (m.ending = none ∧ m.world.Alive v.actor) := by
    by_contra all
    refine unhandled ⟨still, fun m steps awaits => ?_⟩
    by_contra failed
    exact all ⟨m, steps, awaits, failed⟩
  have later : Moment.Steps m last := by
    rcases steps.total inside with later | earlier
    · exact later
    · rw [earlier.ended ending]
  cases ended : m.ending with
  | some e =>
    -- the tick ended while the turn was awaited, so it did not come to its close
    left
    intro finished
    cases later.ended ended
    obtain ⟨phase, ahead, agenda⟩ := Moment.steps_closed coherent inside (finished ▸ ending)
    simp [Moment.Awaits, phase, ahead, agenda] at awaits
  | none =>
    right
    have dead : m.world.Dead v.actor := not_alive.mp fun alive => failed ⟨ended, alive⟩
    have given' : v.actor ≤ m.world.lastId := by
      have grown := steps.lastId first
      rw [Moment.begin_world] at grown
      exact Nat.le_trans given grown
    exact world ▸ later.dead (Moment.steps_coherent coherent steps) given' dead

/-- A tick resumes no wait of an instance that has been destroyed, or is no longer there. -/
theorem tick_dead (wait : Wait τ) (delta : τ) (coherent : w.Coherent) (given : v.actor ≤ w.lastId)
    (dead : w.Dead v.actor) :
    (w.tick delta).world.resumptions v wait = [] ∧ (w.tick delta).world.Dead v.actor := by
  obtain ⟨last, inside, world, _⟩ := Moment.tick_passes w delta
  have first := Moment.begin_coherent coherent delta
  have all : last.Coherent ∧ v.actor ≤ last.world.lastId ∧ last.world.Dead v.actor ∧
      last.world.resumptions v wait = [] := by
    refine inside.invariant (P := fun m => m.Coherent ∧ v.actor ≤ m.world.lastId ∧
      m.world.Dead v.actor ∧ m.world.resumptions v wait = []) ⟨first, ?_⟩ ?_
    · rw [Moment.begin_world]
      exact ⟨given, dead, rfl⟩
    · rintro m next moved ⟨coherent, given, dead, none⟩
      exact ⟨coherent.moved moved, Nat.le_trans given (moved.lastId coherent),
        moved.dead coherent given dead, Moment.dead_unresumed moved coherent dead none⟩
  exact world ▸ ⟨all.2.2.2, all.2.2.1⟩

/-- A wait that is over is not resumed by a later tick. -/
theorem tick_clear (coherent : w.Coherent) (given : v.actor ≤ w.lastId) (slot : wait.slot = v.slot)
    (earlier : wait.issued ≤ w.clock.tick) (clear : w.Clear v wait.issued) :
    (w.tick delta).world.resumptions v wait = [] ∧ (w.tick delta).world.Clear v wait.issued := by
  obtain ⟨last, inside, world, _⟩ := Moment.tick_passes w delta
  have first := Moment.begin_coherent coherent delta
  have all : (last.Coherent ∧ v.actor ≤ last.world.lastId ∧ wait.issued ≠ last.world.clock.tick) ∧
      Moment.Clear v wait.issued last ∧ last.world.resumptions v wait = [] := by
    refine inside.invariant (P := fun m => (m.Coherent ∧ v.actor ≤ m.world.lastId ∧
      wait.issued ≠ m.world.clock.tick) ∧ Moment.Clear v wait.issued m ∧
        m.world.resumptions v wait = []) ⟨⟨first, ?_⟩, ⟨?_, ?_⟩, ?_⟩ ?_
    · rw [Moment.begin_world]
      exact ⟨given, Nat.ne_of_lt (Nat.lt_succ_of_le earlier)⟩
    · rw [Moment.begin_world]
      exact clear
    · rw [Moment.begin_agenda]
      exact fun _ _ listed => absurd listed List.not_mem_nil
    · rw [Moment.begin_world]
      rfl
    · rintro m next moved ⟨⟨coherent, given, earlier⟩, clear, none⟩
      refine ⟨⟨coherent.moved moved, Nat.le_trans given (moved.lastId coherent), ?_⟩,
        clear.moved moved coherent given earlier, ?_⟩
      · rw [moved.sameGame.clock]
        exact earlier
      · rcases moved.resumptions with same | ⟨object, x, rest, _, turn, _, own, issued⟩
        · exact same.trans none
        · exact absurd issued (clear.turns object x (turn ▸ List.mem_cons_self) (own.trans slot))
  exact world ▸ ⟨all.2.2, all.2.1.held⟩

end World

end Gameplay
