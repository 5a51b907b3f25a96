import Gameplay.Proofs.Allocation
import Gameplay.Proofs.Destruction

/-!
# Partners that waits remember

A wait of a collision event remembers the instance that was met by its id. Ids are given out once, so the id
stands for this instance as long as the run goes on, also when the instance is gone.

## Main result

`partner_before`: an instance with the id of a partner was there when the partner was remembered.

## Proof strategy

A walk has its partner from a turn, and every turn with a partner is arranged while the partner is there
(`Moment.Met`). So the ids that waits remember have been given out (`Moved.acquainted`), and what has been given
out is not given out again (`Carries.before`).
-/

namespace Gameplay

variable {τ : Type}

namespace World

variable {w w' : World τ} {created : List (Instance τ)}

/-- The partners that waits remember have ids that have been given out. -/
def Acquainted (w : World τ) : Prop :=
  ∀ i ∈ w.instances, ∀ wait ∈ i.waits, ∀ other, wait.partner = some other → other ≤ w.lastId

/-- It is enough that every wait has the partner of one that was held before. -/
theorem Acquainted.kept (acquainted : w.Acquainted) (lastId : w.lastId ≤ w'.lastId)
    (held : ∀ j ∈ w'.instances, ∀ wait ∈ j.waits, ∃ i ∈ w.instances, ∃ old ∈ i.waits,
      wait.partner = old.partner) : w'.Acquainted := by
  intro j member wait listed other met
  obtain ⟨i, before, old, listed', same⟩ := held j member wait listed
  exact Nat.le_trans (acquainted i before old listed' other (same ▸ met)) lastId

/-- A change that keeps the waits keeps who is remembered. -/
theorem Acquainted.mapped (acquainted : w.Acquainted) {f : Instance τ → Instance τ}
    (lastId : w'.lastId = w.lastId) (instances : w'.instances = w.instances.map f)
    (waits : ∀ i, (f i).waits = i.waits) : w'.Acquainted := by
  apply acquainted.kept (Nat.le_of_eq lastId.symm)
  intro j member wait listed
  rw [instances] at member
  obtain ⟨i, before, rfl⟩ := List.mem_map.mp member
  exact ⟨i, before, wait, waits i ▸ listed, rfl⟩

/-- What is created waits for nothing. -/
theorem Creates.acquainted (creates : w.Creates created w') (acquainted : w.Acquainted) : w'.Acquainted := by
  apply acquainted.kept
  · rw [creates.lastId]
    exact Nat.le_add_right _ _
  · intro j member wait listed
    rcases List.mem_append.mp (creates.instances j member) with old | new
    · exact ⟨j, old, wait, listed, rfl⟩
    · rw [(creates.new j new).waits] at listed
      cases listed

variable [Scalar τ]

theorem Strode.lastId {v : Invocation} {frames : List Frame} {stride : Stride τ}
    (strode : Strode v w frames w' stride) : w'.lastId = w.lastId := by
  obtain ⟨w₀, status, entries, change, rfl, _⟩ := strode.acted
  exact change.lastId

theorem Strode.acquainted {v : Invocation} {frames : List Frame} {stride : Stride τ}
    (strode : Strode v w frames w' stride) (acquainted : w.Acquainted) : w'.Acquainted := by
  apply acquainted.kept (Nat.le_of_eq strode.lastId.symm)
  obtain ⟨w₀, status, entries, change, rfl, _⟩ := strode.acted
  intro j member wait listed
  obtain ⟨i, before, acted⟩ := related_mem change.instances member
  exact ⟨i, before, wait, acted.waits ▸ listed, rfl⟩

/-- A wait that is parked has the partner of the walk. -/
theorem park_acquainted {v : Invocation} {duration : τ} {frames : List Frame} (acquainted : w.Acquainted)
    (partner : ∀ other, v.partner = some other → other ≤ w.lastId) :
    (w.park v duration frames).Acquainted := by
  intro j member wait listed other met
  obtain ⟨i, before, rfl⟩ := List.mem_map.mp member
  split at listed
  · rcases List.mem_append.mp listed with old | new
    · exact acquainted i before wait old other met
    · cases List.mem_singleton.mp new
      exact partner other met
  · exact acquainted i before wait listed other met

theorem takeDue_acquainted {id : Nat} {due : List (Wait τ)} (taken : w.takeDue id = (w', due))
    (acquainted : w.Acquainted) : w'.Acquainted := by
  rcases takeDue_cases taken with ⟨_, rfl, _⟩ | ⟨i, found, _, rfl⟩
  · exact acquainted
  · refine acquainted.kept (Nat.le_refl _) fun j member wait listed => ?_
    obtain ⟨k, before, rfl⟩ := List.mem_map.mp member
    split at listed
    · -- a wait that goes on has only aged
      obtain ⟨⟨old, held, rfl⟩, _⟩ := Waits.mem_kept.mp listed
      exact ⟨i, (instance?_some found).1, old, held, by rw [Waits.age_same]⟩
    · exact ⟨k, before, wait, listed, rfl⟩

end World

/-! ### inside a tick -/

namespace Moment

variable [Scalar τ] {m next : Moment τ}

/-- The partners that waits remember, and the partner of the walk in progress, have ids that have been given
out. -/
structure Acquainted (m : Moment τ) : Prop where
  world : m.world.Acquainted
  walking : ∀ walk, m.walking = some walk → ∀ other, walk.invocation.partner = some other →
    other ≤ m.world.lastId

omit [Scalar τ] in
private theorem Acquainted.idle {w : World τ} {phase : Phase} {agenda : List (Turn τ)}
    {ahead : List (Instance τ)} {ending : Option Ending} (world : w.Acquainted) :
    Acquainted ⟨w, phase, none, agenda, ahead, ending⟩ :=
  ⟨world, nofun⟩

/-- A step remembers only partners that were there when it began. -/
theorem Moved.acquainted (moved : Moved m next) (coherent : m.Coherent) (met : m.Met)
    (acquainted : m.Acquainted) : next.Acquainted := by
  have world := acquainted.world
  cases moved with
  | walk strode =>
    refine ⟨strode.acquainted world, fun walk walking other meets => ?_⟩
    cases walking
    rw [strode.lastId]
    exact acquainted.walking _ rfl other meets
  | halt strode | fail strode => exact .idle (strode.acquainted world)
  | park strode =>
    apply Acquainted.idle
    apply World.park_acquainted (strode.acquainted world)
    intro other meets
    rw [strode.lastId]
    exact acquainted.walking _ rfl other meets
  | start _ _ =>
    -- the partner was there when the turn was arranged
    refine ⟨world, fun walk walking other meets => ?_⟩
    cases walking
    obtain ⟨object, i, member, rfl, _⟩ := met _ other List.mem_cons_self meets
    exact (coherent.world.instances i member).given
  | resume _ same =>
    -- a partner that is gone is forgotten
    refine ⟨world, fun walk walking other meets => ?_⟩
    cases walking
    obtain ⟨_, there⟩ := Option.filter_eq_some_iff.mp (same.symm.trans meets)
    obtain ⟨i, found⟩ := Option.isSome_iff_exists.mp there
    obtain ⟨member, rfl⟩ := World.instance?_some found
    exact (coherent.world.instances i member).given
  | create =>
    apply Acquainted.idle
    refine world.mapped rfl rfl fun i => ?_
    split <;> rfl
  | step taken => exact .idle (World.takeDue_acquainted taken world)
  | stepped =>
    apply Acquainted.idle
    refine world.mapped rfl rfl fun i => ?_
    split <;> rfl
  | handle _ _ taken =>
    subst taken
    exact .idle world
  | @commit w _ =>
    obtain ⟨created, creates⟩ := w.commit_creates
    exact .idle (creates.acquainted world)
  | @transition w _ _ | @transitionFailed w _ _ =>
    obtain ⟨created, creates⟩ := w.stepTransition_creates
    exact .idle (creates.acquainted world)
  | @request w _ _ | @requestFailed w _ _ =>
    obtain ⟨created, creates⟩ := w.followRequest_creates
    exact .idle (creates.acquainted world)
  | finish _ | pass _ | drop _ | created | collided | handled _ | close => exact .idle world

theorem steps_acquainted {w : World τ} (coherent : w.Coherent) (acquainted : w.Acquainted) {delta : τ}
    (inside : Steps (begin w delta) m) : m.Acquainted := by
  have first : (begin w delta).Acquainted := by
    refine ⟨?_, fun walk walking => ?_⟩
    · rw [begin_world]
      exact acquainted
    · rw [begin_walking] at walking
      cases walking
  have both : m.Met ∧ m.Acquainted := by
    apply inside.keeps (P := fun m => m.Met ∧ m.Acquainted) (begin_coherent coherent delta)
    · exact ⟨begin_met w delta, first⟩
    · rintro m next moved coherent ⟨met, acquainted⟩
      exact ⟨met.moved moved coherent, moved.acquainted coherent met acquainted⟩
  exact both.2

end Moment

/-! ### over a run -/

/-- Every part of a call keeps it that partners have been given out. -/
theorem Game.kept_acquainted [Scalar τ] : Kept fun w : World τ => w.Coherent ∧ w.Acquainted where
  initial settings random := ⟨World.initial_coherent settings random, nofun⟩
  enter w project program room compiled := by
    refine ⟨kept_coherent.enter w project program room compiled, ?_⟩
    obtain ⟨created, creates⟩ := (loaded w project program).enterRoom_creates room
    exact creates.acquainted nofun
  run w := by
    rintro ⟨coherent, acquainted⟩
    exact ⟨kept_coherent.run w coherent, acquainted⟩
  tick w delta live := by
    rintro ⟨coherent, acquainted⟩
    obtain ⟨last, inside, same, _⟩ := Moment.tick_passes w delta
    exact ⟨kept_coherent.tick w delta live coherent,
      same ▸ (Moment.steps_acquainted coherent acquainted inside).world⟩
  stop w := by
    rintro ⟨coherent, _⟩
    refine ⟨kept_coherent.stop w coherent, fun i member wait listed => ?_⟩
    obtain ⟨j, _, rfl⟩ := List.mem_map.mp member
    -- a stop leaves no wait
    cases listed
  keys w keys := by
    rintro ⟨coherent, acquainted⟩
    exact ⟨kept_coherent.keys w keys coherent, acquainted⟩
  sounds w := by
    rintro ⟨coherent, acquainted⟩
    exact ⟨kept_coherent.sounds w coherent, acquainted⟩

namespace Instant

/-- The game at an instant; inside a tick it is the one before the tick. -/
def game : Instant τ → Game τ
  | .between g => g
  | .inside g _ _ => g

variable [Scalar τ] {p q : Instant τ}

/-- What is kept by every part of a call holds of the game at every later instant. -/
theorem Later.game_keeps {Q : World τ → Prop} (kept : Game.Kept Q) (later : Later p q)
    (first : Q p.game.world) : Q q.game.world := by
  induction later with
  | refl => exact first
  | tail _ step ih =>
    cases step with
    | call _ _ => exact kept.call _ _ ih
    | begins _ | goes _ => exact ih
    | ends _ => exact kept.call _ (.tick _) ih

/-- At any instant of a run, the partners that waits remember have ids that have been given out. -/
theorem Later.acquainted {g : Game τ} (later : Later (.between g) p) (coherent : g.world.Coherent)
    (acquainted : g.world.Acquainted) : p.world.Acquainted := by
  have before : p.game.world.Coherent ∧ p.game.world.Acquainted :=
    later.game_keeps Game.kept_acquainted ⟨coherent, acquainted⟩
  have arranged : p.Coherent := later.coherent coherent
  cases p with
  | between g => exact before.2
  | inside g delta m => exact (Moment.steps_acquainted before.1 before.2 arranged.2.2).world

end Instant

/-- An instance with the id of a partner that a wait remembers was there when the wait was held. So once the
partner is gone, no other instance takes its place. -/
theorem World.Acquainted.partner_before [Scalar τ] {p q : Instant τ} (acquainted : p.world.Acquainted)
    (coherent : p.Coherent) (later : Instant.Later p q) {i j : Instance τ} {wait : Wait τ}
    (member : i ∈ p.world.instances) (held : wait ∈ i.waits) (there : j ∈ q.world.instances)
    (partner : wait.partner = some j.id) : ∃ k ∈ p.world.instances, k.Persists j := by
  obtain ⟨created, carries⟩ := later.carries coherent
  exact carries.before there (acquainted i member wait held j.id partner)

end Gameplay
