import Gameplay.Proofs.Issuance
import Gameplay.Proofs.Layout
import Gameplay.Proofs.Transit
import Mathlib.Data.List.Induction

/-!
# Waits and time

A wait ends once, in the step phase of the first tick by which the time since it was issued has reached
its duration. If the run stops, the instance is destroyed or the room is changed before, it never ends.

## Main result

`wait_resumes_once_on_time`: this holds for every wait of every run.

## Proof strategy

`Fate` says what has become of a wait after some calls: it is held, with the time that they let pass; it
has ended; or it is lost. A call leads from one fate to another (`Fate.call`), and in each of them the
next tick either resumes the wait or does not.
-/

namespace Gameplay

variable {τ : Type} [Scalar τ]

/-- A call that begins no other run. -/
def HostCall.staysInRun : HostCall τ → Bool
  | .start _ _ => false
  | .reset => false
  | _ => true

namespace Game

instance (g : Game τ) (delta : τ) : Decidable (g.Plays delta) :=
  decidable_of_iff (Scalar.isFinite delta = true ∧ ¬ delta < 0 ∧ g.state.isLive = true)
    ⟨fun ⟨finite, forward, live⟩ => ⟨finite, forward, live⟩,
      fun plays => ⟨plays.finite, plays.forward, plays.live⟩⟩

/-! ### time that has passed -/

/-- The length of the tick that a call plays, if it plays one. -/
def length? (g : Game τ) : HostCall τ → Option τ
  | .tick delta => if g.Plays delta then some (g.world.clock.advance delta).delta else none
  | _ => none

def lengths : Game τ → List (HostCall τ) → List τ
  | _, [] => []
  | g, c :: calls => (g.length? c).toList ++ lengths (g.call c).1 calls

/-- The time that calls let pass: the lengths of their ticks, added from left to right. -/
def passed (g : Game τ) (calls : List (HostCall τ)) : τ := (g.lengths calls).foldl (· + ·) 0

theorem lengths_snoc (g : Game τ) (calls : List (HostCall τ)) (c : HostCall τ) :
    g.lengths (calls ++ [c]) = g.lengths calls ++ ((g.after calls).length? c).toList := by
  induction calls generalizing g with
  | nil => simp [lengths, after]
  | cons first calls ih => simp only [List.cons_append, lengths, ih, after_cons, List.append_assoc]

theorem passed_still {g : Game τ} {calls : List (HostCall τ)} {c : HostCall τ}
    (still : (g.after calls).length? c = none) : g.passed (calls ++ [c]) = g.passed calls := by
  simp [passed, lengths_snoc, still]

/-- A tick that plays adds its length to the time that has passed. -/
theorem passed_tick {g : Game τ} {calls : List (HostCall τ)} {delta : τ}
    (plays : (g.after calls).Plays delta) :
    g.passed (calls ++ [.tick delta]) =
      g.passed calls + ((g.after calls).world.clock.advance delta).delta := by
  simp [passed, lengths_snoc, length?, plays]

/-! ### ticks on which a wait is due -/

/-- A tick after some calls handles an invocation, and by then a duration has passed. -/
structure Due (g : Game τ) (v : Invocation) (duration : τ) (calls : List (HostCall τ)) (delta : τ) :
    Prop where
  plays : (g.after calls).Plays delta
  handles : (g.after calls).world.Handles delta v
  reached : duration ≤ g.passed (calls ++ [.tick delta])

/-- None of the ticks among some calls is of this kind. -/
def NoneDue (g : Game τ) (v : Invocation) (duration : τ) (calls : List (HostCall τ)) : Prop :=
  ∀ earlier delta rest, calls = earlier ++ .tick delta :: rest → ¬ g.Due v duration earlier delta

theorem noneDue_snoc {g : Game τ} {v : Invocation} {duration : τ} {calls : List (HostCall τ)}
    {c : HostCall τ} :
    g.NoneDue v duration (calls ++ [c]) ↔
      g.NoneDue v duration calls ∧ ∀ delta, c = .tick delta → ¬ g.Due v duration calls delta := by
  constructor
  · intro none
    constructor
    · rintro earlier delta rest rfl
      exact none earlier delta (rest ++ [c]) (by simp)
    · rintro delta rfl
      exact none calls delta [] rfl
  · rintro ⟨none, last⟩ earlier delta rest split
    -- the tick in question is the last call, or it is among those before
    rcases List.eq_nil_or_concat rest with rfl | ⟨before, final, rfl⟩
    · obtain ⟨rfl, same⟩ := List.append_inj' split rfl
      exact last delta (List.singleton_inj.mp same)
    · have regrouped : calls ++ [c] = (earlier ++ .tick delta :: before) ++ [final] := by simpa using split
      exact none earlier delta before (List.append_inj' regrouped rfl).1

/-! ### one call -/

/-- A call that begins no other run plays a tick, stops the run, or is about keys and sounds only. -/
theorem call_cases (g : Game τ) {c : HostCall τ} (stays : c.staysInRun = true) :
    (∃ delta, c = .tick delta ∧ g.Plays delta) ∨
    g.length? c = none ∧ ((g.call c).1.world = g.world.stop ∨
      ∃ keys sounds, (g.call c).1.world = { g.world with keys := keys, sounds := sounds }) := by
  cases c with
  | start _ _ | reset => cases stays
  | tick delta =>
    by_cases plays : g.Plays delta
    · exact .inl ⟨delta, rfl, plays⟩
    · refine .inr ⟨if_neg plays, ?_⟩
      simp only [call, tick]
      split
      · exact .inl rfl
      next finite =>
        split
        · exact .inl rfl
        next forward =>
          split
          · exact .inr ⟨_, _, rfl⟩
          -- the run was live and the length valid, so the tick plays after all
          next live => exact absurd ⟨by simpa using finite, forward, by simpa using live⟩ plays
  | stop => exact .inr ⟨rfl, .inl rfl⟩
  | press _ | release _ | releaseAll | takeSounds | snapshot => exact .inr ⟨rfl, .inr ⟨_, _, rfl⟩⟩

/-- What every call that begins no other run keeps is kept by all of them together. -/
theorem after_stays {P : Game τ → Prop}
    (kept : ∀ (g : Game τ) (c : HostCall τ), c.staysInRun = true → P g → P (g.call c).1) {g : Game τ}
    (first : P g) {calls : List (HostCall τ)} (stay : ∀ c ∈ calls, c.staysInRun = true) :
    P (g.after calls) := by
  induction calls generalizing g with
  | nil => exact first
  | cons c calls ih =>
    have later : ∀ c ∈ calls, c.staysInRun = true :=
      fun c listed => stay c (List.mem_cons_of_mem _ listed)
    exact ih (kept g c (stay c List.mem_cons_self) first) later

variable {g : Game τ} {v : Invocation} {wait : Wait τ} {rests : List Script} {delta : τ}

/-- A tick that plays and comes to its end gives its world. -/
theorem Plays.world (plays : g.Plays delta) (finished : (g.world.tick delta).ending = .finished) :
    (g.tick delta).1.world = (g.world.tick delta).world := by
  rw [plays.tick, settle, finished]

/-- A tick that does not come to its end stops the run. -/
theorem Plays.stops (plays : g.Plays delta) (early : (g.world.tick delta).ending ≠ .finished) :
    (g.tick delta).1.state.isLive = false := by
  rw [plays.tick, settle]
  split
  · rfl
  next unfailed =>
    cases ending : (g.world.tick delta).ending with
    | finished => exact absurd ending early
    | failed cause => exact absurd ending (unfailed cause)
    | halted =>
      have stopped := World.tick_halted ending
      simp only [state, stopped]
      rfl

/-- A tick that leaves the run live has come to its end. -/
theorem Plays.finishes (plays : g.Plays delta) (live : (g.tick delta).1.state.isLive = true) :
    (g.world.tick delta).ending = .finished := by
  by_contra early
  rw [plays.stops early] at live
  cases live

theorem Plays.leaves (plays : g.Plays delta) :
    (g.tick delta).1.world.happenings = (g.world.tick delta).world.happenings ∧
      (g.tick delta).1.world.clock = (g.world.tick delta).world.clock ∧
      (g.tick delta).1.world.lastId = (g.world.tick delta).world.lastId ∧
      (g.tick delta).1.world.program = (g.world.tick delta).world.program := by
  rw [plays.tick, settle]
  split <;> exact ⟨rfl, rfl, rfl, rfl⟩

theorem Plays.resumptions (plays : g.Plays delta) :
    (g.tick delta).1.world.resumptions v wait = (g.world.tick delta).world.resumptions v wait := by
  rw [World.resumptions, plays.leaves.1, World.resumptions]

/-! ### what calls keep -/

/-- A game in which a wait was issued, now or before, with certain scripts that are left. -/
private structure Since (g : Game τ) (v : Invocation) (wait : Wait τ) (rests : List Script) : Prop where
  coherent : g.world.Coherent
  bound : g.world.transition.Bound
  slot : wait.slot = v.slot
  given : v.actor ≤ g.world.lastId
  issued : wait.issued ≤ g.world.clock.tick
  leaves : g.world.program.Leaves v.object v.slot wait.frames rests

private theorem Since.call (since : Since g v wait rests) {c : HostCall τ} (stays : c.staysInRun = true) :
    Since (g.call c).1 v wait rests := by
  -- no call that stays in the run takes back ids or ticks, or changes the program
  have grows : g.world.lastId ≤ (g.call c).1.world.lastId ∧
      g.world.clock.tick ≤ (g.call c).1.world.clock.tick ∧
      (g.call c).1.world.program = g.world.program := by
    rcases g.call_cases stays with ⟨delta, rfl, plays⟩ | ⟨_, same | ⟨keys, sounds, same⟩⟩
    · obtain ⟨_, clock, lastId, program⟩ := plays.leaves
      obtain ⟨last, inside, world, _⟩ := Moment.tick_passes g.world delta
      have more := inside.lastId (Moment.begin_coherent since.coherent delta)
      obtain ⟨_, same, later⟩ := Moment.tick_sameGame inside
      rw [Moment.begin_world, world] at more
      rw [world] at same later
      refine ⟨Nat.le_trans more (Nat.le_of_eq lastId.symm), ?_, program.trans same⟩
      simp only [Game.call, clock, later]
      exact Nat.le_succ _
    · rw [same]
      exact ⟨Nat.le_refl _, Nat.le_refl _, rfl⟩
    · rw [same]
      exact ⟨Nat.le_refl _, Nat.le_refl _, rfl⟩
  constructor
  · exact kept_coherent.call g c since.coherent
  · exact kept_bound.call g c since.bound
  · exact since.slot
  · exact Nat.le_trans since.given grows.1
  · exact Nat.le_trans since.issued grows.2.1
  · exact grows.2.2.symm ▸ since.leaves

/-- An invocation will not be handled any more: the run has stopped, the room is being left, or its
instance has been destroyed or left behind. -/
private def Lost (g : Game τ) (v : Invocation) : Prop :=
  g.state.isLive = false ∨ g.world.transition.isRunning = true ∨ g.world.Dead v.actor

/-- If a tick comes to its end, its world matters; otherwise the run has stopped. -/
private theorem Plays.lost (plays : g.Plays delta)
    (finished : (g.world.tick delta).ending = .finished →
      (g.world.tick delta).world.transition.isRunning = true ∨ (g.world.tick delta).world.Dead v.actor) :
    (g.tick delta).1.Lost v := by
  by_cases ended : (g.world.tick delta).ending = .finished
  · right
    rw [plays.world ended]
    exact finished ended
  · exact .inl (plays.stops ended)

/-- A wait that is lost is not resumed by a tick, and stays lost. -/
private theorem Lost.tick (lost : g.Lost v) (since : Since g v wait rests) (plays : g.Plays delta) :
    (g.tick delta).1.world.resumptions v wait = [] ∧ ¬ g.world.Handles delta v ∧
      (g.tick delta).1.Lost v := by
  -- a room that is being left is a case of its own, whatever the reason for the loss
  by_cases running : g.world.transition.isRunning = true
  · obtain ⟨journal, goes⟩ := Moment.tick_transit delta since.coherent since.given since.bound running
    refine ⟨?_, fun handles => ?_, plays.lost fun _ => goes⟩
    · rw [plays.resumptions, World.resumptions, World.happenings, journal]
      rfl
    · rw [handles.1] at running
      cases running
  · rcases lost with stopped | running' | dead
    · rw [plays.live] at stopped
      cases stopped
    · exact absurd running' running
    · obtain ⟨none, still⟩ := World.tick_dead wait delta since.coherent since.given dead
      refine ⟨plays.resumptions.trans none, fun handles => ?_, plays.lost fun _ => .inr still⟩
      -- the turn is awaited from the beginning, but there is no instance that it could come to
      have idle : g.world.transition.isRunning = false := by simpa using running
      have awaits : (Moment.begin g.world delta).Awaits v := by
        rw [World.begin_still idle]
        exact .inl rfl
      have alive := (handles.2 _ .refl awaits).2
      rw [Moment.begin_world] at alive
      exact World.not_alive.mpr dead alive

private theorem Lost.call (lost : g.Lost v) (since : Since g v wait rests) {c : HostCall τ}
    (stays : c.staysInRun = true) : (g.call c).1.Lost v := by
  rcases g.call_cases stays with ⟨delta, rfl, plays⟩ | ⟨_, same | ⟨keys, sounds, same⟩⟩
  · exact (lost.tick since plays).2.2
  · left
    rw [state, same]
    rfl
  · rw [Lost, state, same]
    exact lost

private theorem Lost.after (lost : g.Lost v) (since : Since g v wait rests) {calls : List (HostCall τ)}
    (stay : ∀ c ∈ calls, c.staysInRun = true) :
    (g.after calls).Lost v ∧ Since (g.after calls) v wait rests := by
  refine after_stays (P := fun g => g.Lost v ∧ Since g v wait rests) ?_ ⟨lost, since⟩ stay
  rintro g c stays ⟨lost, since⟩
  exact ⟨lost.call since stays, since.call stays⟩

/-- A tick that does not handle an invocation loses it. -/
private theorem unhandled_lost (since : Since g v wait rests) (plays : g.Plays delta)
    (unhandled : ¬ g.world.Handles delta v) : (g.tick delta).1.Lost v := by
  by_cases running : g.world.transition.isRunning = true
  · have lost : g.Lost v := .inr (.inl running)
    exact (lost.tick since plays).2.2
  · have idle : g.world.transition.isRunning = false := by simpa using running
    refine plays.lost fun finished => ?_
    rcases World.tick_unhandled since.coherent since.given idle unhandled with early | dead
    · exact absurd finished early
    · exact .inr dead

/-! ### the fate of a wait -/

/-- What has become of a wait after some calls: it is held with the time that they let pass, it has come
to its turn, or it is lost. -/
private inductive Fate (g : Game τ) (v : Invocation) (wait : Wait τ) (calls : List (HostCall τ)) : Prop
  | held : (g.after calls).world.Keeps v { wait with elapsed := g.passed calls } →
      g.NoneDue v wait.duration calls → Fate g v wait calls
  | done : (g.after calls).world.Clear v wait.issued → ¬ g.NoneDue v wait.duration calls →
      Fate g v wait calls
  | lost : (g.after calls).Lost v → Fate g v wait calls

/-- What a tick after some calls does with a wait. If it resumes the wait, the scripts that were left are played to
their end, to another wait, or to an action that ends the run or fails. -/
structure Resumes (g : Game τ) (v : Invocation) (wait : Wait τ) (rests : List Script)
    (calls : List (HostCall τ)) (delta : τ) : Prop where
  due : ((g.after calls).tick delta).1.world.resumptions v wait ≠ [] ↔
    g.Due v wait.duration calls delta ∧ g.NoneDue v wait.duration calls
  once : ((g.after calls).tick delta).1.world.resumptions v wait ≠ [] →
    ∃ (partner : Option Nat) (before after idle : Moment τ),
      let u : Invocation := { v with partner := partner }
      let ended : Wait τ := { wait with elapsed := g.passed (calls ++ [.tick delta]) }
      ((g.after calls).tick delta).1.world.resumptions v wait = [.resumed u ended] ∧
        Moment.Steps (.begin (g.after calls).world delta) before ∧ Moment.Resumes u ended before after ∧
        Moment.RunsOut u after idle ∧
        World.Agrees after.world.program u idle.played (after.world.playAll u rests)

variable {calls : List (HostCall τ)}

private theorem Resumes.not (plays : (g.after calls).Plays delta)
    (none : ((g.after calls).world.tick delta).world.resumptions v wait = [])
    (undue : ¬ (g.Due v wait.duration calls delta ∧ g.NoneDue v wait.duration calls)) :
    g.Resumes v wait rests calls delta := by
  have silent : ((g.after calls).tick delta).1.world.resumptions v wait = [] :=
    plays.resumptions.trans none
  constructor
  · constructor
    · intro resumed
      exact absurd silent resumed
    · intro due
      exact absurd due undue
  · intro resumed
    exact absurd silent resumed

/-- A tick that is cut short leaves no run in which the wait could be resumed. -/
private theorem Fate.cut_short (plays : (g.after calls).Plays delta)
    (early : ((g.after calls).world.tick delta).ending ≠ .finished) :
    Fate g v wait (calls ++ [.tick delta]) := by
  refine .lost (.inl ?_)
  rw [after_append]
  exact plays.stops early

/-- A wait that is lost is not resumed by a tick, which leaves it lost. -/
private theorem Fate.tick_lost (since : Since (g.after calls) v wait rests) (plays : (g.after calls).Plays delta)
    (lost : (g.after calls).Lost v) :
    g.Resumes v wait rests calls delta ∧ Fate g v wait (calls ++ [.tick delta]) := by
  obtain ⟨none, unhandled, still⟩ := lost.tick since plays
  constructor
  · exact .not plays (plays.resumptions.symm.trans none) fun due => unhandled due.1.handles
  · refine .lost ?_
    rw [after_append]
    exact still

/-- A wait that is over is not resumed again by a tick, which leaves it over. -/
private theorem Fate.tick_done (since : Since (g.after calls) v wait rests) (plays : (g.after calls).Plays delta)
    (clear : (g.after calls).world.Clear v wait.issued) (due : ¬ g.NoneDue v wait.duration calls) :
    g.Resumes v wait rests calls delta ∧ Fate g v wait (calls ++ [.tick delta]) := by
  obtain ⟨none, still⟩ :=
    World.tick_clear since.coherent since.given since.slot since.issued clear
  constructor
  · exact .not plays none fun first => due first.2
  · by_cases finished : ((g.after calls).world.tick delta).ending = .finished
    · refine .done ?_ fun none => due (noneDue_snoc.mp none).1
      rw [after_append]
      exact (plays.world finished).symm ▸ still
    · exact cut_short plays finished

/-- The length of a tick is added to the time that has passed before it. -/
private theorem Since.aged (since : Since (g.after calls) v wait rests) (plays : (g.after calls).Plays delta) :
    Wait.age ((g.after calls).world.clock.advance delta).delta
      ((g.after calls).world.clock.advance delta).tick { wait with elapsed := g.passed calls } =
      { wait with elapsed := g.passed (calls ++ [.tick delta]) } := by
  have later : wait.issued ≠ ((g.after calls).world.clock.advance delta).tick :=
    Nat.ne_of_lt (Nat.lt_succ_of_le since.issued)
  rw [Wait.age, if_neg later, passed_tick plays]

/-- What is left of the scripts is played when the wait is resumed. -/
private theorem Since.plays_rests (since : Since (g.after calls) v wait rests) {partner : Option Nat} {elapsed : τ}
    {before after : Moment τ} (inside : Moment.Steps (.begin (g.after calls).world delta) before)
    (resumes : Moment.Resumes { v with partner := partner } { wait with elapsed := elapsed } before after) :
    ∃ idle, Moment.RunsOut { v with partner := partner } after idle ∧
      World.Agrees after.world.program { v with partner := partner } idle.played
        (after.world.playAll { v with partner := partner } rests) := by
  have inside' := inside.tail resumes.stepped
  obtain ⟨_, program, _⟩ := Moment.tick_sameGame inside'
  have same := (Moment.step_moved resumes.stepped).sameGame.program
  apply Moment.Coherent.runs_out_agreeing (Moment.steps_coherent since.coherent inside')
    (Moment.steps_funded since.coherent inside') resumes.running
  · rw [same]
    exact resumes.walks
  · rw [program]
    exact since.leaves

/-- A tick resumes a held wait when it is due, and else adds to its time. -/
private theorem Fate.tick_held (since : Since (g.after calls) v wait rests) (plays : (g.after calls).Plays delta)
    (keeps : (g.after calls).world.Keeps v { wait with elapsed := g.passed calls })
    (none : g.NoneDue v wait.duration calls) :
    g.Resumes v wait rests calls delta ∧ Fate g v wait (calls ++ [.tick delta]) := by
  -- while a transition runs nothing is handled, and it ends with a change of rooms
  by_cases running : (g.after calls).world.transition.isRunning = true
  · exact tick_lost since plays (.inr (.inl running))
  have idle : (g.after calls).world.transition.isRunning = false := by simpa using running
  have slot : ({ wait with elapsed := g.passed calls } : Wait τ).slot = v.slot := since.slot
  have result := World.tick_resumes delta since.coherent since.given slot since.issued keeps idle
  rw [since.aged plays] at result
  have goes (P : World τ → Prop) (finished : ((g.after calls).world.tick delta).ending = .finished)
      (holds : P ((g.after calls).world.tick delta).world) : P (g.after (calls ++ [.tick delta])).world := by
    rw [after_append]
    exact (plays.world finished).symm ▸ holds
  cases result with
  | @resumed partner before after handles reached clear once inside resumes =>
    have due : g.Due v wait.duration calls delta := ⟨plays, handles, reached⟩
    have single : ((g.after calls).tick delta).1.world.resumptions v wait = _ :=
      plays.resumptions.trans once
    constructor
    · constructor
      · constructor
        · exact fun _ => ⟨due, none⟩
        · intro _ empty
          rw [single] at empty
          cases empty
      · intro _
        obtain ⟨idle, runs, agrees⟩ := since.plays_rests inside resumes
        exact ⟨partner, before, after, idle, single, inside, resumes, runs, agrees⟩
    · by_cases finished : ((g.after calls).world.tick delta).ending = .finished
      · exact .done (goes (·.Clear v wait.issued) finished clear)
          fun none => (noneDue_snoc.mp none).2 delta rfl due
      · exact cut_short plays finished
  | goesOn handles unreached keeps' silent =>
    have undue : ¬ g.Due v wait.duration calls delta := fun due => unreached due.reached
    constructor
    · exact .not plays silent fun first => undue first.1
    · by_cases finished : ((g.after calls).world.tick delta).ending = .finished
      · refine .held (goes (·.Keeps v _) finished keeps') (noneDue_snoc.mpr ⟨none, fun delta' same => ?_⟩)
        cases same
        exact undue
      · exact cut_short plays finished
  | unhandled unhandled silent =>
    constructor
    · exact .not plays silent fun first => unhandled first.1.handles
    · refine .lost ?_
      rw [after_append]
      exact unhandled_lost since plays unhandled

private theorem Fate.tick (fate : Fate g v wait calls) (since : Since (g.after calls) v wait rests)
    (plays : (g.after calls).Plays delta) :
    g.Resumes v wait rests calls delta ∧ Fate g v wait (calls ++ [.tick delta]) := by
  cases fate with
  | held keeps none => exact tick_held since plays keeps none
  | done clear due => exact tick_done since plays clear due
  | lost lost => exact tick_lost since plays lost

private theorem Fate.call (fate : Fate g v wait calls) (since : Since (g.after calls) v wait rests)
    {c : HostCall τ} (stays : c.staysInRun = true) : Fate g v wait (calls ++ [c]) := by
  -- a call that is no tick can only stop the run, or leave the wait as it is
  rcases (g.after calls).call_cases stays with ⟨delta, rfl, plays⟩ | ⟨still, same | ⟨keys, sounds, same⟩⟩
  · exact (fate.tick since plays).2
  · refine .lost (.inl ?_)
    rw [after_append, state]
    exact congrArg (fun w : World τ => w.status.state.isLive) same
  · have undue : ∀ delta, c = .tick delta → ¬ g.Due v wait.duration calls delta := by
      rintro delta rfl due
      simp [length?, due.plays] at still
    have world : (g.after (calls ++ [c])).world = { (g.after calls).world with keys := keys, sounds := sounds } := by
      rw [after_append]
      exact same
    cases fate with
    | held keeps none =>
      refine .held ?_ (noneDue_snoc.mpr ⟨none, undue⟩)
      rw [world, passed_still still]
      exact keeps
    | done clear due =>
      refine .done ?_ fun none => due (noneDue_snoc.mp none).1
      rw [world]
      exact clear
    | lost lost =>
      refine .lost ?_
      rw [Lost, state, world]
      exact lost

/-- A wait that was issued on a tick, after any calls in the same run. -/
private theorem fate_after (since : Since g v wait rests) (first : Fate g v wait []) (calls : List (HostCall τ))
    (stay : ∀ c ∈ calls, c.staysInRun = true) :
    Since (g.after calls) v wait rests ∧ Fate g v wait calls := by
  -- the fate after one call more depends on that after the calls before it
  induction calls using List.reverseRecOn with
  | nil => exact ⟨since, first⟩
  | append_singleton calls c ih =>
    have stays := stay c (by simp)
    obtain ⟨before, fate⟩ := ih fun c listed => stay c (List.mem_append_left _ listed)
    constructor
    · rw [after_append]
      exact before.call stays
    · exact fate.call before stays

/-- A wait resumes once and on time. Let a tick of any run suspend an invocation with a wait. It was a step at a wait
action that did, and the wait keeps the scripts that are left after it. This tick does not resume it. A later tick
of the same run resumes it if and only if it is the first one that handles the invocation and by which the lengths
of the ticks since, added from left to right, have reached the duration of the wait. Then it resumes it once, and
no Step event of the instance has been started before in that tick. The scripts that were left are played from
there on, as far as they go. If a tick does not handle the invocation, no tick after it resumes the wait. -/
theorem wait_resumes_once_on_time (settings : Settings) (calls : List (HostCall τ)) (delta : τ)
    (v : Invocation) (wait : Wait τ) :
    let issuing : Game τ := (new settings).after calls
    let issued := (issuing.tick delta).1
    issuing.Plays delta → .suspended v wait ∈ issued.world.happenings →
      issued.world.resumptions v wait = [] ∧
      ∃ rests, (∃ m next, Moment.Steps (.begin issuing.world delta) m ∧ Moment.Suspends v wait rests m next) ∧
        ∀ (later : List (HostCall τ)) (length : τ), (∀ c ∈ later, c.staysInRun = true) →
          (issued.after later).Plays length →
            issued.Resumes v wait rests later length ∧
            (¬ (issued.after later).world.Handles length v →
              ∀ (further : List (HostCall τ)) (length' : τ), (∀ c ∈ further, c.staysInRun = true) →
                let g := ((issued.after later).tick length).1.after further
                g.Plays length' → (g.tick length').1.world.resumptions v wait = []) := by
  intro issuing issued plays noted
  have coherent : issuing.world.Coherent := after_coherent settings calls
  obtain ⟨happenings, clock, lastId, program⟩ := plays.leaves
  obtain ⟨known, silent⟩ := World.tick_suspended coherent (happenings ▸ noted)
  -- the step that issued the wait says what is left of the scripts
  obtain ⟨last, inside, world, _⟩ := Moment.tick_passes issuing.world delta
  have entered : .suspended v wait ∈ last.world.journal := by
    rw [happenings] at noted
    exact world ▸ List.mem_reverse.mp noted
  obtain ⟨rests, before, after, earlier, suspends⟩ := Moment.steps_suspend coherent inside entered
  have same : issued.world.program = before.world.program := by
    rw [program, ← world, (Moment.tick_sameGame inside).2.1, (Moment.tick_sameGame earlier).2.1]
  have since : Since issued v wait rests := by
    constructor
    · exact kept_coherent.call issuing (.tick delta) coherent
    · exact kept_bound.call issuing (.tick delta) (after_bound settings calls)
    · exact known.slot
    · exact Nat.le_trans known.given (Nat.le_of_eq lastId.symm)
    · exact Nat.le_of_eq (known.issued.trans (congrArg Clock.tick clock.symm))
    · exact same ▸ suspends.leaves
  -- right after the tick that issued it, the wait is held and no time has passed
  have first : Fate issued v wait [] := by
    by_cases finished : (issuing.world.tick delta).ending = .finished
    · have unaged : ({ wait with elapsed := issued.passed [] } : Wait τ) = wait := by
        rw [show issued.passed [] = wait.elapsed from known.elapsed.symm]
      refine .held ?_ ?_
      · rw [unaged]
        exact (plays.world finished).symm ▸ known.keeps
      · rintro earlier length rest split
        simp at split
    · exact .lost (.inl (plays.stops finished))
  refine ⟨plays.resumptions.trans silent, rests, ⟨before, after, earlier, suspends⟩,
    fun later length stay played => ?_⟩
  obtain ⟨since', fate⟩ := fate_after since first later stay
  refine ⟨(fate.tick since' played).1, fun unhandled further length' stay' => ?_⟩
  have lost := unhandled_lost since' played unhandled
  have ticked : Since ((issued.after later).tick length).1 v wait rests := since'.call (c := .tick length) rfl
  obtain ⟨still, since''⟩ := lost.after ticked stay'
  exact fun played' => (still.tick since'' played').1

/-- The cat naps for five milliseconds, which are over on the second of two ticks of four. Then it scores, as it was
to do after the nap. -/
theorem wait_resumes_once_on_time_nap :
    let issuing : Game Float := (new .default).after [.start napping "room"]
    let issued := (issuing.tick 16).1
    let step : Invocation := ⟨1, 0, 0, none⟩
    let nap : Wait Float := ⟨0, [⟨0, 1⟩, ⟨2, 1⟩], 5, 0, 1, none⟩
    let rests : List Script := [.done, .act (.changeScore (.literal (.number 1))) .done]
    issuing.Plays 16 ∧ .suspended step nap ∈ issued.world.happenings ∧
      issued.world.resumptions step nap = [] ∧
      (∃ m next, Moment.Steps (.begin issuing.world 16) m ∧ Moment.Suspends step nap rests m next) ∧
      issued.Resumes step nap rests [] 4 ∧ issued.Resumes step nap rests [.tick 4] 4 ∧
      ((issued.after [.tick 4]).tick 4).1.world.resumptions step nap ≠ [] ∧
      (issued.after [.tick 4]).world.score = 0 ∧ ((issued.after [.tick 4]).tick 4).1.world.score = 1 := by
  have plays : ((new .default : Game Float).after [.start napping "room"]).Plays 16 := by decide +kernel
  have program : ((new .default : Game Float).after [.start napping "room"]).world.program = napProgram := by
    decide +kernel
  have noted : .suspended ⟨1, 0, 0, none⟩ ⟨0, [⟨0, 1⟩, ⟨2, 1⟩], 5, 0, 1, none⟩ ∈
      (((new .default : Game Float).after [.start napping "room"]).tick 16).1.world.happenings := by
    decide +kernel
  have first : ((((new .default : Game Float).after [.start napping "room"]).tick 16).1.after []).Plays 4 := by
    decide +kernel
  have second : ((((new .default : Game Float).after [.start napping "room"]).tick 16).1.after
      [.tick 4]).Plays 4 := by decide +kernel
  have resumed : (((((new .default : Game Float).after [.start napping "room"]).tick 16).1.after
      [.tick 4]).tick 4).1.world.resumptions ⟨1, 0, 0, none⟩ ⟨0, [⟨0, 1⟩, ⟨2, 1⟩], 5, 0, 1, none⟩ ≠ [] := by
    decide +kernel
  have unscored : ((((new .default : Game Float).after [.start napping "room"]).tick 16).1.after
      [.tick 4]).world.score = 0 := by decide +kernel
  have scored : (((((new .default : Game Float).after [.start napping "room"]).tick 16).1.after
      [.tick 4]).tick 4).1.world.score = 1 := by decide +kernel
  obtain ⟨silent, rests, ⟨m, next, inside, suspends⟩, onTime⟩ :=
    wait_resumes_once_on_time .default [.start napping "room"] 16 ⟨1, 0, 0, none⟩ _ plays noted
  -- the frames of the nap stand for one list of scripts only
  have left : rests = [.done, .act (.changeScore (.literal (.number 1))) .done] := by
    have stands := suspends.leaves.stands
    rw [(Moment.tick_sameGame inside).2.1, program] at stands
    have unique : Relator.RightUnique (Arena.Stands napProgram.arena) := fun _ _ _ left right => left.unique right
    exact List.right_unique_forall₂' unique stands
      (.cons Arena.Reads.done (.cons (Arena.Reads.act rfl .done) .nil))
  subst left
  have stay : ∀ c ∈ [(.tick 4 : HostCall Float)], c.staysInRun = true := by
    intro c listed
    rw [List.mem_singleton.mp listed]
    rfl
  exact ⟨plays, noted, silent, ⟨m, next, inside, suspends⟩,
    (onTime [] 4 (fun _ listed => absurd listed List.not_mem_nil) first).1,
    (onTime [.tick 4] 4 stay second).1, resumed, unscored, scored⟩

end Game

end Gameplay
