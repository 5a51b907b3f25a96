import Gameplay.Proofs.Coherence
import Gameplay.Proofs.Host
import Gameplay.Proofs.Moments

/-!
# Suspended invocations

At every point inside a tick, the slots of an instance that wait, and those whose invocation is walked or
is still to be resumed, are all different. So a slot is suspended at most once.

## Main results

`Coherent.moved`: every step inside a tick keeps a moment coherent.
`after_coherent`: so the world is coherent in whatever state a host brings about.
`World.Coherent.suspends`: then no instance holds two waits of one slot, and every wait is a place in its event.
-/

namespace Gameplay

/-! ### coherent moments -/

/-- A turn of an instance that is there, for an event of its object. A wait that is to be resumed was
issued before this tick. -/
inductive Turn.Fits {τ : Type} (w : World τ) : Turn τ → Prop
  | start {v : Invocation} {body : Nat} : w.Has v.actor v.object →
      w.program.body? v.object v.slot = some body → Turn.Fits w (.start v)
  | resume {actor object : Nat} {wait : Wait τ} : w.Has actor object →
      wait.Fits w.program w.clock.tick object → wait.issued ≠ w.clock.tick →
      Turn.Fits w (.resume actor object wait)

/-- The slot of a wait of an instance that is to be resumed. -/
def Turn.slot? {τ : Type} (id : Nat) : Turn τ → Option Nat
  | .start _ => none
  | .resume actor _ wait => if actor = id then some wait.slot else none

/-- An agenda resumes waits of one instance, and then starts invocations. -/
def Turn.Ordered {τ : Type} (agenda : List (Turn τ)) : Prop :=
  ∃ (actor object : Nat) (due : List (Wait τ)) (starts : List Invocation),
    agenda = due.map (.resume actor object) ++ starts.map .start

/-- The slots of an instance whose invocation is walked or is still to be resumed. -/
def Moment.owed {τ : Type} (m : Moment τ) (id : Nat) : List Nat :=
  ((m.walking.map (·.invocation)).toList.filter (·.actor == id)).map (·.slot) ++
    m.agenda.filterMap (Turn.slot? id)

/-- A walk of an instance that is there, on a path of an event of its object. -/
structure Walking.Fits {τ : Type} (w : World τ) (walk : Walking) : Prop where
  present : w.Has walk.invocation.actor walk.invocation.object
  path : ∃ body, w.program.body? walk.invocation.object walk.invocation.slot = some body ∧
    (walk.frames = [] ∨ w.program.arena.Path body walk.frames)

/-- A moment in which the world is coherent and all that is under way belongs to it. -/
structure Moment.Coherent {τ : Type} (m : Moment τ) : Prop where
  world : m.world.Coherent
  walking : ∀ walk, m.walking = some walk → walk.Fits m.world
  turns : ∀ turn ∈ m.agenda, turn.Fits m.world
  order : Turn.Ordered m.agenda
  ahead : ∀ i ∈ m.ahead, m.world.Has i.id i.object
  distinct : (m.ahead.map (·.id)).Nodup
  passed : m.phase ≠ .create → m.phase ≠ .step → m.ahead = []
  slots : ∀ i ∈ m.world.instances, (m.owed i.id ++ i.waits.map (·.slot)).Nodup

namespace Turn

variable {τ : Type}

/-- Only waits are owed. -/
private theorem starts_owe (vs : List Invocation) (id : Nat) :
    (vs.map (.start : Invocation → Turn τ)).filterMap (slot? id) = [] := by
  induction vs with
  | nil => rfl
  | cons v vs ih => rw [List.map_cons, List.filterMap_cons_none rfl, ih]

/-- Turns that resume due waits owe the slots of those waits. -/
private theorem resumes_owe (due : List (Wait τ)) (actor object id : Nat) :
    (due.map (.resume actor object)).filterMap (slot? id) =
      if actor = id then due.map (·.slot) else [] := by
  split <;> induction due <;> simp_all [slot?]

private theorem Ordered.starts (vs : List Invocation) : Ordered (vs.map (.start : Invocation → Turn τ)) :=
  ⟨0, 0, [], vs, rfl⟩

private theorem Ordered.tail {turn : Turn τ} {rest : List (Turn τ)} (order : Ordered (turn :: rest)) :
    Ordered rest := by
  obtain ⟨actor, object, due, starts, split⟩ := order
  cases due with
  | nil =>
    cases starts with
    | nil => cases split
    | cons v vs => cases split; exact .starts vs
  | cons wait due => cases split; exact ⟨actor, object, due, starts, rfl⟩

/-- After an invocation that starts, no wait is to be resumed. -/
theorem Ordered.start_owes {v : Invocation} {rest : List (Turn τ)}
    (order : Ordered (.start v :: rest)) (id : Nat) : rest.filterMap (slot? id) = [] := by
  obtain ⟨actor, object, due, starts, split⟩ := order
  cases due with
  | nil =>
    cases starts with
    | nil => cases split
    | cons v vs => cases split; exact starts_owe vs id
  | cons wait due => cases split

end Turn

namespace World

variable {τ : Type} {w w' : World τ}

/-- The same program at the same time, with all instances that there were. -/
structure Stays (w w' : World τ) : Prop where
  program : w'.program = w.program
  clock : w'.clock = w.clock
  has : ∀ id object, w.Has id object → w'.Has id object

theorem Stays.refl (w : World τ) : w.Stays w := ⟨rfl, rfl, fun _ _ there => there⟩

/-- A turn still fits where the program and the instances have stayed. -/
theorem Stays.turn (stays : w.Stays w') {turn : Turn τ} (fits : turn.Fits w) : turn.Fits w' := by
  cases fits with
  | start there found => exact .start (stays.has _ _ there) (stays.program ▸ found)
  | resume there fits before =>
    rw [← stays.clock] at fits before
    exact .resume (stays.has _ _ there) (stays.program ▸ fits) before

/-- A change to instances that keeps their ids and objects. -/
theorem Stays.mapped {f : Instance τ → Instance τ} (program : w'.program = w.program)
    (clock : w'.clock = w.clock) (instances : w'.instances = w.instances.map f)
    (same : ∀ i, (f i).id = i.id ∧ (f i).object = i.object) : w.Stays w' := by
  refine ⟨program, clock, fun id object there => ?_⟩
  obtain ⟨i, member, rfl, rfl⟩ := there
  exact ⟨f i, instances ▸ List.mem_map_of_mem member, same i⟩

theorem Acted.stays {v : Invocation} (acted : w.Acted v w') : w.Stays w' := by
  refine ⟨acted.program, acted.clock, fun id object there => ?_⟩
  obtain ⟨i, member, rfl, rfl⟩ := there
  obtain ⟨j, present, change⟩ := related_mem acted.instances.flip member
  exact ⟨j, present, change.id, change.object⟩

/-- A slot that is listed has a body in the program. -/
theorem slots_body {object slot : Nat} {wanted : Trigger → Bool} (listed : slot ∈ w.slots object wanted) :
    ∃ body, w.program.body? object slot = some body := by
  unfold slots at listed
  cases found : w.program.object? object with
  | none => simp [found] at listed
  | some o =>
    simp only [found, Option.map_some, Option.getD_some, CompiledObject.slots, List.mem_map,
      List.mem_filter] at listed
    obtain ⟨⟨e, n⟩, ⟨numbered, _⟩, rfl⟩ := listed
    have event : o.events[n]? = some e := List.mem_zipIdx_iff_getElem?.mp numbered
    exact ⟨e.body, by simp [Program.body?, found, event]⟩

/-- What an instance is planned to run fits the world. -/
theorem invocations_fit {i : Instance τ} {partner : Option Nat} {wanted : Trigger → Bool} {v : Invocation}
    (there : w.Has i.id i.object) (arranged : v ∈ w.invocations i partner wanted) :
    (Turn.start v).Fits w := by
  obtain ⟨slot, listed, rfl⟩ := List.mem_map.mp arranged
  obtain ⟨body, found⟩ := slots_body listed
  exact .start there found

theorem invocations_own {i : Instance τ} {partner : Option Nat} {wanted : Trigger → Bool} {v : Invocation}
    (arranged : v ∈ w.invocations i partner wanted) : v.actor = i.id ∧ v.slot ∈ w.slots v.object wanted := by
  obtain ⟨slot, listed, rfl⟩ := List.mem_map.mp arranged
  exact ⟨rfl, listed⟩

theorem has_of_live {i : Instance τ} (live : i ∈ w.live) : w.Has i.id i.object :=
  ⟨i, (mem_live.mp live).1, rfl, rfl⟩

theorem collisions_fit {v : Invocation} (arranged : v ∈ w.collisions) : (Turn.start v).Fits w := by
  obtain ⟨⟨i, j⟩, _, listed⟩ := List.mem_flatMap.mp arranged
  dsimp only at listed
  split at listed
  next own other found _ =>
    exact invocations_fit (has_of_live (List.mem_of_getElem? found)) listed
  · cases listed

theorem customInvocations_fit {emits : List Emit} {v : Invocation}
    (arranged : v ∈ w.customInvocations emits) : (Turn.start v).Fits w := by
  obtain ⟨e, _, listed⟩ := List.mem_flatMap.mp arranged
  obtain ⟨i, live, listed⟩ := List.mem_flatMap.mp listed
  exact invocations_fit (has_of_live live) listed

end World

namespace Moment

variable {τ : Type} {w w' : World τ} {phase : Phase} {agenda rest : List (Turn τ)}
  {ahead : List (Instance τ)} {walking walking' : Option Walking} {ending : Option Ending}

theorem Coherent.actor_present {m : Moment τ} (coherent : m.Coherent) {v : Invocation} {steps : Nat}
    {frames : List Frame} (walking : m.walking = some ⟨v, steps, frames⟩) :
    (m.world.instance? v.actor).isSome = true := by
  obtain ⟨i, member, mine, _⟩ := (coherent.walking _ walking).present
  dsimp only at mine
  rw [← mine, World.instance?_of_mem coherent.world.ids member]
  rfl

/-! ### what a step keeps -/

/-- Invocations are arranged while nothing is walked. -/
private theorem Coherent.arranged (starts : List Invocation) (world : w.Coherent)
    (turns : ∀ v ∈ starts, (Turn.start v).Fits w) (present : ∀ i ∈ ahead, w.Has i.id i.object)
    (distinct : (ahead.map (·.id)).Nodup) (passed : phase ≠ .create → phase ≠ .step → ahead = []) :
    Coherent ⟨w, phase, none, starts.map .start, ahead, ending⟩ where
  world := world
  walking := nofun
  turns turn listed := by
    obtain ⟨v, arranged, rfl⟩ := List.mem_map.mp listed
    exact turns v arranged
  order := .starts starts
  ahead := present
  distinct := distinct
  passed := passed
  slots i member := by
    simp only [owed, Turn.starts_owe]
    exact (world.instances i member).slots

/-- Nothing is under way, and no instance is ahead. -/
private theorem Coherent.quiet (world : w.Coherent) :
    Coherent ⟨w, phase, none, [], [], ending⟩ :=
  Coherent.arranged [] world nofun nofun .nil fun _ _ => rfl

/-- A change to the world and to what is walked. -/
private theorem Coherent.changed
    (coherent : Coherent ⟨w, phase, walking, agenda, ahead, none⟩) (world : w'.Coherent)
    (stays : w.Stays w') (walk : ∀ walk, walking' = some walk → walk.Fits w')
    (slots : ∀ i ∈ w'.instances, (owed ⟨w', phase, walking', agenda, ahead, ending⟩ i.id ++
      i.waits.map (·.slot)).Nodup) : Coherent ⟨w', phase, walking', agenda, ahead, ending⟩ where
  world := world
  walking := walk
  turns turn listed := stays.turn (coherent.turns turn listed)
  order := coherent.order
  ahead i listed := stays.has _ _ (coherent.ahead i listed)
  distinct := coherent.distinct
  passed := coherent.passed
  slots := slots

/-- A walk that ends owes less. -/
private theorem owed_finished {id : Nat} {slots : List Nat}
    (distinct : (owed ⟨w, phase, walking, agenda, ahead, none⟩ id ++ slots).Nodup) :
    (owed ⟨w', phase, none, agenda, ahead, ending⟩ id ++ slots).Nodup :=
  distinct.sublist ((List.sublist_append_right _ _).append_right slots)

/-- A turn that is passed over leaves less to do. -/
private theorem Coherent.passedOver {turn : Turn τ}
    (coherent : Coherent ⟨w, phase, none, turn :: rest, ahead, none⟩) :
    Coherent ⟨w, phase, none, rest, ahead, none⟩ where
  world := coherent.world
  walking := nofun
  turns turn listed := coherent.turns turn (List.mem_cons_of_mem _ listed)
  order := coherent.order.tail
  ahead := coherent.ahead
  distinct := coherent.distinct
  passed := coherent.passed
  slots i member := by
    have fewer : (rest.filterMap (Turn.slot? i.id)).Sublist ((turn :: rest).filterMap (Turn.slot? i.id)) :=
      (List.sublist_cons_self turn rest).filterMap _
    exact (coherent.slots i member).sublist (fewer.append_right _)

/-- A turn that is taken begins a walk. The slots that are owed must stay distinct. -/
private theorem Coherent.entered {turn : Turn τ} {h : Happening τ} {walk : Walking}
    (coherent : Coherent ⟨w, phase, none, turn :: rest, ahead, none⟩) (fits : walk.Fits w)
    (slots : ∀ i ∈ w.instances, (owed ⟨w, phase, some walk, rest, ahead, none⟩ i.id ++
      i.waits.map (·.slot)).Nodup) :
    Coherent ⟨w.note h, phase, some walk, rest, ahead, none⟩ := by
  have world := coherent.world
  refine coherent.passedOver.changed ⟨world.compiled, world.ids, world.instances⟩
    ⟨rfl, rfl, fun _ _ there => there⟩ (fun walk' same => ?_) slots
  cases same
  exact ⟨fits.present, fits.path⟩

/-- The turn that starts an event leaves its slot owed by the walk alone. -/
private theorem Coherent.start {v : Invocation} {body : Nat}
    (coherent : Coherent ⟨w, phase, none, .start v :: rest, ahead, none⟩) (free : w.bars v = false)
    (found : w.program.body? v.object v.slot = some body) :
    Coherent ⟨w.note (.started v), phase,
      some ⟨v, w.program.steps [⟨body, 0⟩], [⟨body, 0⟩]⟩, rest, ahead, none⟩ := by
  obtain ⟨present, _⟩ := coherent.turns _ List.mem_cons_self
  refine coherent.entered ⟨present, body, found, .inr (.body (Nat.zero_le _))⟩ fun i member => ?_
  have none := coherent.order.start_owes i.id
  have slots := (coherent.world.instances i member).slots
  by_cases mine : v.actor = i.id
  · -- the slot is not suspended, or the invocation would be passed over
    have unheld : v.slot ∉ i.waits.map (·.slot) := by
      intro held
      have suspended := (World.isSuspended_iff coherent.world.ids member).mpr held
      simp [World.bars, mine, suspended] at free
    simpa [owed, none, mine] using ⟨by simpa using unheld, slots⟩
  · simpa [owed, none, mine] using slots

private theorem Coherent.resume {actor object : Nat} {wait : Wait τ} {partner : Option Nat}
    (coherent : Coherent ⟨w, phase, none, .resume actor object wait :: rest, ahead, none⟩) :
    Coherent ⟨w.note (.resumed ⟨actor, object, wait.slot, partner⟩ wait), phase,
      some ⟨⟨actor, object, wait.slot, partner⟩, w.program.steps wait.frames, wait.frames⟩, rest,
      ahead, none⟩ := by
  cases coherent.turns _ List.mem_cons_self with
  | resume present fits _ =>
    obtain ⟨body, found, path⟩ := fits.path
    refine coherent.entered ⟨present, body, found, .inr path⟩ fun i member => ?_
    have slots := coherent.slots i member
    by_cases mine : actor = i.id
    · simpa [owed, Turn.slot?, mine] using slots
    · simpa [owed, Turn.slot?, mine] using slots

private theorem Coherent.create {i : Instance τ} {is : List (Instance τ)}
    (coherent : Coherent ⟨w, .create, none, [], i :: is, none⟩) :
    Coherent ⟨w.modify i.id fun i => { i with fresh := false }, .create, none,
      (w.invocations i none (· == .create)).map .start, is, none⟩ := by
  have stays : w.Stays (w.modify i.id fun i => { i with fresh := false }) :=
    .mapped rfl rfl rfl fun j => by split <;> exact ⟨rfl, rfl⟩
  refine .arranged _ (coherent.world.modify fun _ => ⟨rfl, rfl, rfl⟩) (fun v listed => ?_)
    (fun j listed => ?_) (List.nodup_cons.mp coherent.distinct).2 fun other => absurd rfl other
  · exact stays.turn (World.invocations_fit (coherent.ahead i List.mem_cons_self) listed)
  · exact stays.has _ _ (coherent.ahead j (List.mem_cons_of_mem _ listed))

private theorem Coherent.created (coherent : Coherent ⟨w, .create, none, [], [], none⟩) :
    Coherent ⟨w, .step, none, [], w.live, none⟩ :=
  Coherent.arranged [] coherent.world nofun (fun _ => World.has_of_live)
    (World.live_ids coherent.world.ids) fun _ other => absurd rfl other

variable [Scalar τ]

/-- A step of a walk keeps the ids, the objects and the waits of instances. -/
private theorem strode_stays {v : Invocation} {frames : List Frame} {stride : Stride τ}
    (strode : World.Strode v w frames w' stride) (coherent : w.Coherent) :
    w'.Coherent ∧ w.Stays w' ∧
      ∀ j ∈ w'.instances, ∃ i ∈ w.instances, j.id = i.id ∧ j.waits = i.waits := by
  obtain ⟨w₀, status, entries, change, rfl, _⟩ := strode.acted
  have still := change.coherent coherent
  have stays := change.stays
  refine ⟨⟨still.compiled, still.ids, still.instances⟩, ⟨stays.program, stays.clock, stays.has⟩, ?_⟩
  intro j member
  obtain ⟨i, present, acted⟩ := related_mem change.instances member
  exact ⟨i, present, acted.id, acted.waits⟩

/-- A stride that goes on keeps the walk's slot owed. -/
private theorem Coherent.walk {v : Invocation} {steps : Nat} {frames left : List Frame}
    (coherent : Coherent ⟨w, phase, some ⟨v, steps + 1, frames⟩, agenda, ahead, none⟩)
    (strode : World.Strode v w frames w' (.on left)) :
    Coherent ⟨w', phase, some ⟨v, steps, left⟩, agenda, ahead, none⟩ := by
  obtain ⟨world, stays, waits⟩ := strode_stays strode coherent.world
  refine coherent.changed world stays (fun walk same => ?_) fun j member => ?_
  · cases same
    obtain ⟨present, body, found, path⟩ := coherent.walking _ rfl
    refine ⟨stays.has _ _ present, body, stays.program ▸ found, ?_⟩
    rcases path with empty | path
    · -- a walk without frames does not go on
      subst empty
      cases strode
    · exact stays.program ▸ strode.path path
  · obtain ⟨i, present, sameId, sameWaits⟩ := waits j member
    rw [sameId, sameWaits]
    exact coherent.slots i present

/-- A walk that ends without a wait leaves a coherent moment. -/
private theorem Coherent.stopped {v : Invocation} {steps : Nat} {frames : List Frame}
    {stride : Stride τ} (coherent : Coherent ⟨w, phase, some ⟨v, steps, frames⟩, agenda, ahead, none⟩)
    (strode : World.Strode v w frames w' stride) :
    Coherent ⟨w', phase, none, agenda, ahead, ending⟩ := by
  obtain ⟨world, stays, waits⟩ := strode_stays strode coherent.world
  refine coherent.changed world stays nofun fun j member => ?_
  obtain ⟨i, present, sameId, sameWaits⟩ := waits j member
  rw [sameId, sameWaits]
  exact owed_finished (coherent.slots i present)

/-- A walk that waits hands its slot over to the wait. -/
private theorem Coherent.park {v : Invocation} {steps : Nat} {frames left : List Frame} {duration : τ}
    (coherent : Coherent ⟨w, phase, some ⟨v, steps, frames⟩, agenda, ahead, none⟩)
    (strode : World.Strode v w frames w' (.stop (.suspended duration left))) :
    Coherent ⟨w'.park v duration left, phase, none, agenda, ahead, none⟩ := by
  obtain ⟨world, stays, waits⟩ := strode_stays strode coherent.world
  obtain ⟨present, body, found, path⟩ := coherent.walking _ rfl
  -- the slot that is walked is owed, so no wait of it is held
  have free : ∀ j ∈ w'.instances, j.id = v.actor →
      (v.slot :: (agenda.filterMap (Turn.slot? j.id) ++ j.waits.map (·.slot))).Nodup := by
    intro j member mine
    obtain ⟨i, there, sameId, sameWaits⟩ := waits j member
    have slots := coherent.slots i there
    rw [← sameId, ← sameWaits] at slots
    simpa [owed, mine] using slots
  have parked : (w'.park v duration left).Coherent := by
    refine World.park_coherent world (stays.has _ _ present) (stays.program ▸ found) ?_ ?_
    · rcases path with empty | path
      · subst empty
        cases strode
      · exact stays.program ▸ strode.path_suspended path
    · intro j member mine held
      have distinct := free j member mine
      simp [held] at distinct
  refine coherent.changed parked ?_ nofun fun j member => ?_
  · have mapped : w'.Stays (w'.park v duration left) :=
      .mapped rfl rfl rfl fun i => by split <;> exact ⟨rfl, rfl⟩
    exact ⟨mapped.program.trans stays.program, mapped.clock.trans stays.clock,
      fun id object there => mapped.has _ _ (stays.has _ _ there)⟩
  · obtain ⟨i, there, rfl⟩ := List.mem_map.mp member
    split
    next mine =>
      have distinct := free i there mine
      simp only [owed, Option.map_none, Option.toList_none, List.filter_nil, List.map_nil, List.nil_append,
        List.map_append, List.map_cons, ← List.append_assoc]
      exact List.nodup_append_comm.mp distinct
    next other =>
      obtain ⟨before, present, sameId, sameWaits⟩ := waits i there
      rw [sameId, sameWaits]
      exact owed_finished (coherent.slots before present)

/-- The waits that end are owed instead of held. -/
private theorem Coherent.step {i : Instance τ} {is : List (Instance τ)} {due : List (Wait τ)}
    (coherent : Coherent ⟨w, .step, none, [], i :: is, none⟩) (taken : w.takeDue i.id = (w', due)) :
    Coherent ⟨w', .step, none, due.map (.resume i.id i.object) ++
      (w.invocations i none (· == .step)).map .start, is, none⟩ := by
  have world := World.takeDue_coherent coherent.world taken
  have present := coherent.ahead i List.mem_cons_self
  obtain ⟨own, there, sameId, sameObject⟩ := present
  have found : w.instance? i.id = some own := sameId ▸ World.instance?_of_mem coherent.world.ids there
  rcases World.takeDue_cases taken with ⟨absent, _⟩ | ⟨other, found', rfl, rfl⟩
  · rw [found] at absent
    cases absent
  rw [found] at found'
  cases found'
  have stays : w.Stays (w.modify i.id fun j =>
      { j with waits := (Waits.advance own.waits w.clock.delta w.clock.tick).2 }) :=
    .mapped rfl rfl rfl fun j => by split <;> exact ⟨rfl, rfl⟩
  refine ⟨world, nofun, fun turn listed => stays.turn ?_, ⟨_, _, _, _, rfl⟩,
    fun j listed => stays.has _ _ (coherent.ahead j (List.mem_cons_of_mem _ listed)),
    (List.nodup_cons.mp coherent.distinct).2, fun _ other => absurd rfl other, fun j member => ?_⟩
  · rcases List.mem_append.mp listed with resumed | started
    · -- what ends was held, and it was not issued in this tick
      obtain ⟨wait, ends, rfl⟩ := List.mem_map.mp resumed
      obtain ⟨⟨held, before, rfl⟩, _, earlier⟩ := Waits.mem_due.mp ends
      have fits := (coherent.world.instances own there).waits held before
      exact .resume ⟨own, there, sameId, sameObject⟩ (Waits.age_fits (sameObject ▸ fits)) earlier
    · obtain ⟨v, arranged, rfl⟩ := List.mem_map.mp started
      exact World.invocations_fit ⟨own, there, sameId, sameObject⟩ arranged
  · obtain ⟨j, before, rfl⟩ := List.mem_map.mp member
    have slots := (coherent.world.instances j before).slots
    simp only [owed, Option.map_none, Option.toList_none, List.filter_nil, List.map_nil, List.nil_append,
      List.filterMap_append, Turn.starts_owe, Turn.resumes_owe, List.append_nil]
    -- what is due moves from the waits that are held to those that are owed
    split
    next mine =>
      have only : j = own :=
        List.inj_on_of_nodup_map coherent.world.ids before there (mine.trans sameId.symm)
      rw [only] at slots
      simp only [only, sameId, if_true]
      exact (Waits.advance_slots own.waits w.clock.delta w.clock.tick).nodup_iff.mpr slots
    next other => simpa [Ne.symm other] using slots

/-- Every step inside a tick keeps a moment coherent. -/
theorem Coherent.moved {m next : Moment τ} (coherent : m.Coherent) (moved : Moved m next) :
    next.Coherent := by
  have world := coherent.world
  cases moved with
  | walk strode => exact coherent.walk strode
  | finish _ => exact coherent.changed world (.refl _) nofun fun i member => owed_finished (coherent.slots i member)
  | park strode => exact coherent.park strode
  | halt strode => exact coherent.stopped strode
  | fail strode => exact coherent.stopped strode
  | pass _ => exact coherent.passedOver
  | drop _ => exact coherent.passedOver
  | start free found => exact coherent.start free found
  | resume _ _ => exact coherent.resume
  | create => exact coherent.create
  | created => exact coherent.created
  | step taken => exact coherent.step taken
  | stepped =>
    have still := World.applyVelocities_coherent world
    exact .arranged _ still (fun v => World.collisions_fit) nofun .nil fun _ _ => rfl
  -- a phase is left with no turn to come, so the next one begins with nothing owed
  | collided =>
    cases coherent.passed nofun nofun
    exact .quiet world
  | handle _ _ taken =>
    cases coherent.passed nofun nofun
    subst taken
    refine .arranged _ ⟨world.compiled, world.ids, world.instances⟩ ?_ nofun .nil fun _ _ => rfl
    exact fun v => World.customInvocations_fit
  | handled _ =>
    cases coherent.passed nofun nofun
    exact .quiet world
  | commit =>
    cases coherent.passed nofun nofun
    exact .quiet (World.commit_coherent world)
  | transition _ =>
    cases coherent.passed nofun nofun
    exact .quiet (World.stepTransition_coherent world)
  | transitionFailed _ =>
    cases coherent.passed nofun nofun
    exact .quiet (World.stepTransition_coherent world)
  | request _ =>
    cases coherent.passed nofun nofun
    exact .quiet (World.followRequest_coherent world)
  | requestFailed _ =>
    cases coherent.passed nofun nofun
    exact .quiet (World.followRequest_coherent world)
  | close =>
    cases coherent.passed nofun nofun
    exact .quiet ⟨world.compiled, world.ids, world.instances⟩

/-- A tick begins coherent in a coherent world. -/
theorem begin_coherent (world : w.Coherent) (delta : τ) : (begin w delta).Coherent := by
  have later : World.Coherent { w with clock := w.clock.advance delta, journal := [] } :=
    ⟨world.compiled, world.ids, fun i member =>
      (world.instances i member).later (Nat.le_succ _) (Nat.le_refl _)⟩
  unfold begin
  dsimp only
  split
  · exact .quiet later
  · refine Coherent.arranged [] later nofun (fun i listed => ?_) ?_ fun other => absurd rfl other
    · exact World.has_of_live (List.mem_filter.mp listed).1
    · exact (World.live_ids later.ids).sublist (List.filter_sublist.map _)

/-- Every point inside a tick of a coherent world is coherent. -/
theorem steps_coherent (world : w.Coherent) {delta : τ} {m : Moment τ} (inside : Steps (begin w delta) m) :
    m.Coherent :=
  inside.invariant (begin_coherent world delta) fun moved coherent => coherent.moved moved

/-- What steps from coherent moments keep is kept from a coherent moment on. -/
theorem Steps.keeps {P : Moment τ → Prop} {m last : Moment τ} (steps : Steps m last) (coherent : m.Coherent)
    (first : P m) (kept : ∀ {m next : Moment τ}, Moved m next → m.Coherent → P m → P next) : P last := by
  have both : last.Coherent ∧ P last := by
    refine steps.invariant (P := fun m => m.Coherent ∧ P m) ⟨coherent, first⟩ ?_
    rintro m next moved ⟨coherent, holds⟩
    exact ⟨coherent.moved moved, kept moved coherent holds⟩
  exact both.2

end Moment

/-! ### which invocations start -/

namespace Moment

variable {τ : Type} [Scalar τ] {m next : Moment τ} {v : Invocation}

/-- An invocation starts only at its turn, and only if nothing bars it. -/
theorem Moved.started (moved : Moved m next)
    (noted : next.world.journal = .started v :: m.world.journal) :
    m.walking = none ∧ (∃ rest, m.agenda = .start v :: rest) ∧ m.world.bars v = false := by
  cases moved.noted noted with
  | started idle turn free => exact ⟨idle, ⟨_, turn⟩, free⟩

/-- At its turn an invocation that nothing bars does start. -/
theorem Coherent.starts (coherent : m.Coherent) (running : m.ending = none) (idle : m.walking = none)
    {rest : List (Turn τ)} (turn : m.agenda = .start v :: rest) (free : m.world.bars v = false) :
    ∃ next, m.step = some next ∧ next.world.journal = .started v :: m.world.journal := by
  obtain ⟨w, phase, walking, agenda, ahead, ending⟩ := m
  cases running
  cases idle
  cases turn
  cases coherent.turns _ List.mem_cons_self with
  | start present found =>
    refine ⟨_, rfl, ?_⟩
    simp only [take, free, found]
    rfl

end Moment

/-! ### in whatever state -/

/-- A wait of a slot is held by an instance. -/
def World.Waiting {τ : Type} (w : World τ) (id slot : Nat) : Prop :=
  ∃ i ∈ w.instances, i.id = id ∧ slot ∈ i.waits.map (·.slot)

/-- No instance holds two waits of one slot, and every wait is a place in an event of its instance that
was issued no later than now. -/
def World.Suspends {τ : Type} (w : World τ) : Prop :=
  ∀ i ∈ w.instances, (i.waits.map (·.slot)).Nodup ∧
    ∀ wait ∈ i.waits, wait.Fits w.program w.clock.tick i.object

/-- In a coherent world no two waits of an instance share a slot. -/
theorem World.Coherent.suspends {τ : Type} {w : World τ} (coherent : w.Coherent) : w.Suspends :=
  fun i member => ⟨(coherent.instances i member).slots, (coherent.instances i member).waits⟩

/-- Whether an invocation is passed over depends, besides on what is destroyed, on its own slot only. -/
theorem World.bars_iff {τ : Type} {w : World τ} (unique : (w.instances.map (·.id)).Nodup)
    (v : Invocation) :
    w.bars v = false ↔ w.isDestroyed v.actor = false ∧ v.partner.any w.isDestroyed = false ∧
      ¬ w.Waiting v.actor v.slot := by
  have waiting : w.isSuspended v.actor v.slot = false ↔ ¬ w.Waiting v.actor v.slot := by
    rw [← not_iff_not, Bool.not_eq_false, not_not]
    constructor
    · intro suspended
      cases found : w.instance? v.actor with
      | none => simp [isSuspended, found] at suspended
      | some i =>
        obtain ⟨member, mine⟩ := instance?_some found
        exact ⟨i, member, mine, (isSuspended_iff unique member).mp (mine ▸ suspended)⟩
    · rintro ⟨i, member, mine, held⟩
      exact mine ▸ (isSuspended_iff unique member).mpr held
  rw [← waiting]
  simp only [bars, Bool.or_eq_false_iff, and_assoc]

namespace Game

variable {τ : Type} [Scalar τ]

/-- Before any run the world is coherent, and every part of a call keeps it so. -/
theorem kept_coherent : Kept fun w : World τ => w.Coherent where
  initial := World.initial_coherent
  enter w project program room compiled := by
    have clean : (loaded w project program).Coherent := ⟨⟨_, compiled⟩, .nil, nofun⟩
    exact World.enterRoom_coherent clean room
  run w world := ⟨world.compiled, world.ids, world.instances⟩
  tick w delta _ world := by
    obtain ⟨last, inside, same, _⟩ := Moment.tick_passes w delta
    exact same ▸ (Moment.steps_coherent world inside).world
  stop w := World.stop_coherent
  keys w keys world := ⟨world.compiled, world.ids, world.instances⟩
  sounds w world := ⟨world.compiled, world.ids, world.instances⟩

/-- Whatever the host calls, the world is coherent. -/
theorem after_coherent (settings : Settings) (calls : List (HostCall τ)) :
    ((new settings : Game τ).after calls).world.Coherent :=
  after_world kept_coherent settings calls

end Game

end Gameplay
