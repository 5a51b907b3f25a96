import Gameplay.Proofs.Destruction
import Gameplay.Proofs.Freeze

/-!
# The records of a tick

While the events of a tick are played no instance comes or goes. What is to be removed is marked and listed,
and what is to be spawned is queued. The end of the tick goes by these records.

## Main results

`steps_ledger`, `Settled.ledger`: what stands in the records when the events of a tick are over.
`commit_spawns`: what the end of the tick makes of the queue.
`after_intact`: in a live run no marked instance is left between two ticks.
-/

namespace Gameplay

variable {τ : Type}

/-- An instance later on: it may have moved and acted, but it is the same thing. -/
structure Instance.Persists (i j : Instance τ) : Prop where
  id : j.id = i.id
  object : j.object = i.object
  origin : j.origin = i.origin
  collider : j.collider = i.collider

theorem Instance.Persists.refl (i : Instance τ) : i.Persists i := ⟨rfl, rfl, rfl, rfl⟩

theorem Instance.Persists.trans {i j k : Instance τ} (first : i.Persists j) (second : j.Persists k) :
    i.Persists k where
  id := second.id.trans first.id
  object := second.object.trans first.object
  origin := second.origin.trans first.origin
  collider := second.collider.trans first.collider

/-- An instance as it is spawned. -/
structure Spawn.Creates (p : Program) (s : Spawn) (i : Instance τ) : Prop where
  object : i.object = s.object
  position : i.position = s.position
  locals : ∃ o, p.object? s.object = some o ∧ i.locals = .ofDeclarations o.declarations
  waits : i.waits = []
  fresh : i.fresh = true
  destroyed : i.destroyed = false

def Happening.isSpawn : Happening τ → Bool
  | .performed _ action => action.isSpawn
  | _ => false

theorem Action.Spawns.isSpawn {w : World τ} {v : Invocation} {action : Action} {s : Spawn}
    (spawns : action.Spawns w v s) : action.isSpawn = true := by
  cases spawns <;> rfl

/-- What is asked for is an instance of an object of the program. -/
theorem Action.Spawns.known {w : World τ} {v : Invocation} {action : Action} {s : Spawn}
    (spawns : action.Spawns w v s) : ∃ o, w.program.object? s.object = some o := by
  cases spawns with
  | absolute found _ | relative found _ _ =>
    obtain ⟨o, present, _⟩ := Program.object?_of_index found
    exact ⟨o, present⟩

namespace World

variable {w c : World τ}

/-- How many instances the actions of the last tick have asked for. -/
def spawned (w : World τ) : Nat := w.happenings.countP Happening.isSpawn

theorem spawned_append (entries : List (Happening τ)) (journal : c.journal = entries ++ w.journal) :
    c.spawned = w.spawned + entries.countP Happening.isSpawn := by
  simp only [spawned, happenings, journal, List.reverse_append, List.countP_append, List.countP_reverse]

/-- Where nothing that is noted asks for an instance, no more have been asked for. -/
theorem spawned_quiet (entries : List (Happening τ)) (journal : c.journal = entries ++ w.journal)
    (quiet : entries.countP Happening.isSpawn = 0) : c.spawned = w.spawned := by
  rw [spawned_append entries journal, quiet, Nat.add_zero]

/-! ### the end of the tick -/

/-- Spawns are carried out in the order in which they were asked for, and take the ids that follow. -/
private theorem foldr_spawns {spawns : List Spawn}
    (known : ∀ s ∈ spawns, ∃ o, w.program.object? s.object = some o) :
    ∃ is : List (Instance τ), is.map (·.id) = List.range' (w.lastId + 1) spawns.length ∧
      List.Forall₂ (Spawn.Creates w.program) spawns.reverse is ∧
      spawns.foldr (fun s w => w.spawn s.object s.position ⟨none, none⟩) w =
        { w with lastId := w.lastId + spawns.length, instances := w.instances ++ is } := by
  induction spawns with
  | nil => exact ⟨[], rfl, .nil, by simp⟩
  | cons s spawns ih =>
    -- the latest comes first in the queue, and is spawned last
    obtain ⟨is, ids, creates, spawned⟩ := ih fun s listed => known s (List.mem_cons_of_mem _ listed)
    obtain ⟨o, definition⟩ := known s List.mem_cons_self
    let i : Instance τ := ⟨w.lastId + spawns.length + 1, s.object, ⟨none, none⟩, s.position, .zero, 0,
      .ofSize o.size o.solid, .ofDeclarations o.declarations, [], true, false⟩
    have created : s.Creates w.program i := ⟨rfl, rfl, ⟨o, definition, rfl⟩, rfl, rfl, rfl⟩
    refine ⟨is ++ [i], ?_, ?_, ?_⟩
    · rw [List.map_append, ids, List.length_cons, List.range'_concat]
      simp only [List.map_cons, List.map_nil, i]
      congr 2
      omega
    · rw [List.reverse_cons]
      exact List.rel_append creates (.cons created .nil)
    · rw [List.foldr_cons, spawned]
      simp only [spawn, definition, nextId, List.append_assoc, List.length_cons]
      rfl

theorem commit_spawns (known : ∀ s ∈ w.pending.spawns, ∃ o, w.program.object? s.object = some o) :
    ∃ is : List (Instance τ), is.map (·.id) = List.range' (w.lastId + 1) w.pending.spawns.length ∧
      List.Forall₂ (Spawn.Creates w.program) w.pending.spawns.reverse is ∧
      w.commit.lastId = w.lastId + w.pending.spawns.length ∧
      w.commit.instances =
        (w.instances.filter fun i => !(w.pending.destroys.contains i.id && i.destroyed)) ++ is := by
  let left : World τ := { w with
    instances := w.instances.filter fun i => !(w.pending.destroys.contains i.id && i.destroyed)
    pending := { w.pending with destroys := [], spawns := [] } }
  obtain ⟨is, ids, creates, spawned⟩ := foldr_spawns (w := left) known
  have committed : w.commit =
      { left with lastId := w.lastId + w.pending.spawns.length, instances := left.instances ++ is } := spawned
  exact ⟨is, ids, creates, congrArg World.lastId committed, congrArg World.instances committed⟩

end World

/-! ### the records -/

namespace Moment

variable [Scalar τ]

/-- A step carries out an action that asks for an instance. -/
structure Spawns (s : Spawn) (m next : Moment τ) : Prop where
  stepped : m.step = some next
  asked : ∃ v action, next.world.journal = .performed v action :: m.world.journal ∧
    action.Spawns m.world v s

end Moment

namespace World

variable [Scalar τ] {w c c' : World τ} {delta : τ}

/-- An action of the tick is aimed at the instance. -/
def Aimed (w : World τ) (delta : τ) (id : Nat) : Prop :=
  ∃ v m next, Moment.Steps (.begin w delta) m ∧ Moment.Destroys v id m next

/-- The tick asks for an instance when it has asked for a number of others. -/
def Asked (w : World τ) (delta : τ) (k : Nat) (s : Spawn) : Prop :=
  ∃ m next, Moment.Steps (.begin w delta) m ∧ Moment.Spawns s m next ∧ m.world.spawned = k

/-- The records at a point of the tick at which no instance has come or gone. -/
structure Ledger (w : World τ) (delta : τ) (c : World τ) : Prop where
  persist : List.Forall₂ Instance.Persists w.instances c.instances
  lastId : c.lastId = w.lastId
  listed : ∀ i ∈ c.instances, i.destroyed = true → i.id ∈ c.pending.destroys
  aimed : ∀ id ∈ c.pending.destroys, w.Aimed delta id
  count : c.pending.spawns.length = c.spawned
  asked : ∀ k s, c.pending.spawns.reverse[k]? = some s → w.Asked delta k s

namespace Ledger

/-- What is changed but for marks and records leaves the records right. -/
theorem mapped (ledger : w.Ledger delta c) {f : Instance τ → Instance τ}
    (same : ∀ i, i.Persists (f i) ∧ (f i).destroyed = i.destroyed)
    (instances : c'.instances = c.instances.map f) (lastId : c'.lastId = c.lastId)
    (destroys : c'.pending.destroys = c.pending.destroys) (spawns : c'.pending.spawns = c.pending.spawns)
    (spawned : c'.spawned = c.spawned) : w.Ledger delta c' where
  -- instances persist and keep their marks, so all records are as they were
  persist := by
    rw [instances]
    refine forall₂_trans (fun _ _ _ => .trans) ledger.persist ?_
    exact List.forall₂_map_right_iff.mpr (List.forall₂_same.mpr fun i _ => (same i).1)
  lastId := lastId.trans ledger.lastId
  listed j member marked := by
    rw [instances] at member
    obtain ⟨i, present, rfl⟩ := List.mem_map.mp member
    rw [destroys, (same i).1.id]
    exact ledger.listed i present ((same i).2 ▸ marked)
  aimed := destroys ▸ ledger.aimed
  count := by
    rw [spawns, spawned]
    exact ledger.count
  asked := spawns ▸ ledger.asked

/-- Where instances and records are as they were, the ledger stands. -/
theorem kept (ledger : w.Ledger delta c) (instances : c'.instances = c.instances)
    (lastId : c'.lastId = c.lastId) (destroys : c'.pending.destroys = c.pending.destroys)
    (spawns : c'.pending.spawns = c.pending.spawns) (spawned : c'.spawned = c.spawned) : w.Ledger delta c' :=
  ledger.mapped (f := id) (fun i => ⟨.refl i, rfl⟩) (instances.trans (List.map_id _).symm) lastId destroys
    spawns spawned

/-- A step of a walk enters what its action does into the ledger. -/
theorem strode {m next : Moment τ} (ledger : w.Ledger delta m.world)
    (inside : Moment.Steps (.begin w delta) m) (stepped : m.step = some next) {v : Invocation}
    {frames : List Frame} {stride : Stride τ} (strode : Strode v m.world frames next.world stride)
    (present : (m.world.instance? v.actor).isSome = true) : w.Ledger delta next.world := by
  obtain ⟨done, journal, deed⟩ := strode.deed present
  obtain ⟨w₀, status, entries, change, same, _⟩ := strode.acted
  -- the step itself is the evidence for what it puts on record
  have noted : ∀ a ∈ done, next.world.journal = .performed v a :: m.world.journal := by
    intro a did
    cases did
    exact journal
  constructor
  · refine forall₂_trans (fun _ _ _ => .trans) ledger.persist ?_
    rw [same]
    exact change.instances.imp fun _ _ acted => ⟨acted.id, acted.object, acted.origin, acted.collider⟩
  · rw [same]
    exact change.lastId.trans ledger.lastId
  · intro j member marked
    obtain ⟨i, there, mine, marks⟩ := related_mem deed.marks member
    rw [mine]
    exact (deed.destroys i.id).mpr ((marks.mp marked).imp_left (ledger.listed i there))
  · intro id listed
    rcases (deed.destroys id).mp listed with before | ⟨a, did, aims⟩
    · exact ledger.aimed id before
    · exact ⟨v, m, next, inside, stepped, a, noted a did, aims⟩
  · rw [spawned_append _ journal, ← ledger.count]
    rcases deed.spawns with ⟨a, did, s, spawns, queue⟩ | ⟨unasked, queue⟩
    · cases did
      simp [queue, Happening.isSpawn, spawns.isSpawn]
    · rw [queue]
      cases done with
      | none => rfl
      | some a => simp [Happening.isSpawn, unasked a rfl]
  · -- the queue has the latest first, so what is asked for now is the last of all
    intro k s found
    rcases deed.spawns with ⟨a, did, asked, spawns, queue⟩ | ⟨_, queue⟩
    · rw [queue, List.reverse_cons] at found
      rcases Nat.lt_or_ge k m.world.pending.spawns.length with before | last
      · rw [List.getElem?_append_left (by simpa using before)] at found
        exact ledger.asked k s found
      · rw [List.getElem?_append_right (by simpa using last), List.length_reverse] at found
        obtain ⟨first, rfl⟩ : k - m.world.pending.spawns.length = 0 ∧ asked = s := by
          simpa [List.getElem?_singleton] using found
        refine ⟨m, next, inside, ⟨stepped, v, a, noted a did, spawns⟩, ?_⟩
        rw [← ledger.count]
        omega
    · rw [queue] at found
      exact ledger.asked k s found

end Ledger

/-- In a live run no marked instance is left. -/
def Intact (w : World τ) : Prop := w.status.state.isLive = true → ∀ i ∈ w.instances, i.destroyed = false

/-- The ledger begins empty. -/
private theorem begin_ledger (alive : ∀ i ∈ w.instances, i.destroyed = false) (clear : w.pending.Clear) :
    w.Ledger delta (Moment.begin w delta).world := by
  rw [Moment.begin_world]
  constructor
  · exact List.forall₂_same.mpr fun i _ => .refl i
  · rfl
  · intro i member marked
    rw [alive i member] at marked
    cases marked
  · rw [clear.destroys]
    exact nofun
  · exact congrArg List.length clear.spawns
  · rw [clear.spawns]
    exact nofun

theorem steps_ledger (coherent : w.Coherent) (alive : ∀ i ∈ w.instances, i.destroyed = false)
    (clear : w.pending.Clear) {m : Moment τ} (inside : Moment.Steps (.begin w delta) m)
    (early : m.phase.isEarly = true) : w.Ledger delta m.world := by
  -- no phase comes twice, so before an early moment there are only early ones
  induction inside with
  | refl => exact begin_ledger alive clear
  | @tail m next inside stepped ih =>
    have within := Moment.steps_coherent coherent inside
    cases Moment.step_moved stepped with
    | walk strode => exact (ih early).strode inside stepped strode (within.actor_present rfl)
    | halt strode => exact (ih early).strode inside stepped strode (within.actor_present rfl)
    | fail strode => exact (ih early).strode inside stepped strode (within.actor_present rfl)
    | park strode =>
      cases strode with
      | suspend _ _ acted =>
        -- the action that waits goes on no record
        obtain ⟨⟨operand, rfl⟩, rfl⟩ := act_suspend acted
        refine (ih early).mapped (fun i => ?_) rfl rfl rfl rfl ?_
        · split <;> exact ⟨⟨rfl, rfl, rfl, rfl⟩, rfl⟩
        · exact spawned_quiet [_, _] rfl rfl
    | start _ _ | resume _ _ =>
      exact (ih early).kept rfl rfl rfl rfl (spawned_quiet [_] rfl rfl)
    | create =>
      refine (ih early).mapped (fun i => ?_) rfl rfl rfl rfl rfl
      split <;> exact ⟨⟨rfl, rfl, rfl, rfl⟩, rfl⟩
    | step taken =>
      rcases takeDue_cases taken with ⟨_, rfl, _⟩ | ⟨_, _, _, rfl⟩
      · exact ih early
      · refine (ih early).mapped (fun i => ?_) rfl rfl rfl rfl rfl
        split <;> exact ⟨⟨rfl, rfl, rfl, rfl⟩, rfl⟩
    | stepped =>
      refine (ih rfl).mapped (fun i => ?_) rfl rfl rfl rfl rfl
      split <;> exact ⟨⟨rfl, rfl, rfl, rfl⟩, rfl⟩
    | handle _ _ taken =>
      subst taken
      exact (ih rfl).kept rfl rfl rfl rfl (spawned_quiet [_] rfl rfl)
    | finish _ | pass _ | drop _ => exact ih early
    | created | collided | handled _ => exact ih rfl
    | commit | transition _ | transitionFailed _ | request _ | requestFailed _ | close => cases early

theorem Settled.ledger (settled : w.Settled) (coherent : w.Coherent) (intact : w.Intact)
    (live : w.status.state.isLive = true) (finished : (w.events delta).ending = .finished) :
    w.Ledger delta (w.events delta).world :=
  steps_ledger coherent (intact live) (settled.pending live) (events_pass finished) rfl

/-! ### between two ticks -/

/-- What is queued to be spawned can be spawned. -/
theorem Ledger.known (ledger : w.Ledger delta c) (program : c.program = w.program) :
    ∀ s ∈ c.pending.spawns, ∃ o, c.program.object? s.object = some o := by
  intro s listed
  obtain ⟨k, found⟩ := List.mem_iff_getElem?.mp (List.mem_reverse.mpr listed)
  obtain ⟨m, next, inside, ⟨_, v, action, _, spawns⟩, _⟩ := ledger.asked k s found
  rw [program, ← (Moment.tick_sameGame inside).2.1]
  exact spawns.known

/-- Whatever is marked is removed, as it is listed as well. -/
theorem Ledger.commit_alive (ledger : w.Ledger delta c) (program : c.program = w.program) :
    ∀ i ∈ c.commit.instances, i.destroyed = false := by
  obtain ⟨is, _, creates, _, instances⟩ := commit_spawns (ledger.known program)
  rw [instances]
  intro i member
  rcases List.mem_append.mp member with stayed | added
  · obtain ⟨there, stays⟩ := List.mem_filter.mp stayed
    cases marked : i.destroyed with
    | false => rfl
    | true => simp [marked, ledger.listed i there marked] at stays
  · obtain ⟨s, _, created⟩ := related_mem creates added
    exact created.destroyed

private theorem Closes.intact {p : Played τ} (closes : c.Closes p)
    (alive : ∀ i ∈ c.instances, i.destroyed = false) (unfailed : ∀ cause, p.ending ≠ .failed cause) :
    p.world.Intact := by
  intro _
  cases closes with
  | onward _ _ | rests _ _ | departs _ _ _ => exact alive
  | arrives _ _ _ _ populates | changes _ _ _ _ populates => exact populates.alive
  | stranded _ _ _ _ _ _ | barred _ _ _ _ _ _ => exact absurd rfl (unfailed _)

private theorem Settled.tick_intact (settled : w.Settled) (coherent : w.Coherent) (declared : w.Declared)
    (intact : w.Intact) (live : w.status.state.isLive = true)
    (unfailed : ∀ cause, (w.tick delta).ending ≠ .failed cause) : (w.tick delta).world.Intact := by
  by_cases finished : (w.events delta).ending = .finished
  · have ledger := settled.ledger coherent intact live finished
    have program := (Moment.tick_sameGame (events_pass finished)).2.1
    exact (settled.closes coherent declared live finished).2.intact (ledger.commit_alive program) unfailed
  · -- a game that has ended is not live
    intro still
    rw [tick_halted (tick_halts finished unfailed).2] at still
    cases still

/-- No call leaves a marked instance in a live run. -/
private theorem called_intact {w' : World τ} (called : w.Called w') (settled : w.Settled)
    (coherent : w.Coherent) (declared : w.Declared) (intact : w.Intact) : w'.Intact := by
  cases called with
  | aside _ _ => exact intact
  | stopped | reset | refused | barred _ _ _ | failed _ _ => exact nofun
  | @entered project program room p _ entering finished =>
    subst entering
    obtain ⟨definition, known⟩ := enterRoom_known finished
    rcases enterRoom_cases _ known with ⟨is, populates, same⟩ | ⟨_, _, _, same⟩
    · rw [same]
      exact fun _ => populates.alive
    · rw [same] at finished
      cases finished
  | ticked _ _ live unfailed => exact settled.tick_intact coherent declared intact live unfailed

end World

theorem Game.after_intact [Scalar τ] [Timed τ] (settings : Settings) (calls : List (HostCall τ)) :
    ((new settings : Game τ).after calls).world.Intact := by
  -- the induction is on the last call, as the game before it is settled
  induction calls using List.reverseRecOn with
  | nil => exact nofun
  | append_singleton calls c ih =>
    rw [after_append]
    exact World.called_intact (call_called _ c) (after_settled settings calls) (after_coherent settings calls)
      (after_declared settings calls) ih

end Gameplay
