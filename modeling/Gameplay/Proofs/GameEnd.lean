import Gameplay.Proofs.Destruction
import Gameplay.Proofs.Faults

/-!
# The end of a game

An action that ends the game ends its tick where it stands. Neither the rest of its invocation, nor another
turn, nor a later phase of the tick gets to run, and no later tick does anything.

## Main result

`end_game_is_last`: the game after the tick is the one right after the action, and later ticks leave it so.

## Proof strategy

The step that carries out the action leaves a moment that has ended (`EndsGame.halts`). No moment comes after
it, so it is the one in which the tick ends, whatever was still to come.
-/

namespace Gameplay

variable {τ : Type} [Scalar τ]

namespace World

/-- An action that ends the game and is noted by a step of a walk halts the walk. -/
theorem Strode.halts {w w' : World τ} {v : Invocation} {frames : List Frame} {stride : Stride τ}
    {message : String} {entries : List (Happening τ)} (strode : Strode v w frames w' stride)
    (journal : w'.journal = entries ++ w.journal) (noted : .performed v (.endGame message) ∈ entries) :
    stride = .stop .halted ∧ w' = (w.act v (.endGame message)).1 := by
  -- a step that carries out an action notes this action only
  have only {w₀ : World τ} {action : Action} (same : w₀.journal = w.journal)
      (journal : (w₀.note (.performed v action)).journal = entries ++ w.journal) :
      action = .endGame message := by
    have one : [.performed v action] ++ w.journal = entries ++ w.journal := by
      rw [← journal, ← same]
      rfl
    rw [← List.append_cancel_right one] at noted
    cases List.mem_singleton.mp noted
    rfl
  have some_noted : w.journal ≠ entries ++ w.journal := by
    intro same
    rw [List.self_eq_append_left.mp same] at noted
    cases noted
  cases strode with
  | done | leave _ | skip _ _ | dangle _ _ _ | enter _ _ _ _ => exact absurd journal some_noted
  | act _ _ acted =>
    obtain ⟨w₀, change, _, rfl⟩ := act_next acted
    cases only change.journal journal
    -- this action gives another flow
    cases congrArg Prod.snd acted
  | suspend _ _ acted =>
    obtain ⟨⟨operand, rfl⟩, rfl⟩ := act_suspend acted
    cases only rfl journal
  | halt _ _ acted =>
    obtain ⟨words, rfl, rfl⟩ := act_halt acted
    cases only rfl journal
    exact ⟨rfl, rfl⟩
  | fail _ _ acted =>
    rw [(act_fail acted).1.journal] at journal
    exact absurd journal some_noted

end World

namespace Moment

variable {m next : Moment τ} {v : Invocation} {message : String}

/-- A step in which an invocation carries out an action that ends the game. -/
structure EndsGame (v : Invocation) (message : String) (m next : Moment τ) : Prop where
  stepped : m.step = some next
  noted : next.world.journal = .performed v (.endGame message) :: m.world.journal

/-- A step that notes an end of the game has carried out nothing else, and ends the tick. -/
private theorem Moved.halts (moved : Moved m next) {entries : List (Happening τ)}
    (journal : next.world.journal = entries ++ m.world.journal)
    (noted : .performed v (.endGame message) ∈ entries) :
    next.world = (m.world.act v (.endGame message)).1 ∧ next.ending = some .halted := by
  obtain ⟨entries', journal', notes, _⟩ := moved.notes
  cases List.append_cancel_right (journal.symm.trans journal')
  cases notes _ noted with
  | performed walking =>
    -- the action is one of the walk in progress, which then does not go on
    cases moved with
    | walk strode =>
      cases walking
      cases (strode.halts journal noted).1
    | halt strode =>
      cases walking
      exact ⟨(strode.halts journal noted).2, rfl⟩
    | fail strode =>
      cases walking
      cases (strode.halts journal noted).1
    | @park w w' phase _ steps frames left duration _ _ strode =>
      cases walking
      -- besides its action a wait notes that the invocation is suspended
      obtain ⟨w₀, _, actions, change, same, _⟩ := strode.acted
      have acted : w'.journal = actions ++ w.journal := by rw [same, ← change.journal]
      have split : entries ++ w.journal =
          .suspended v ⟨v.slot, left, duration, 0, w'.clock.tick, v.partner⟩ :: actions ++ w.journal := by
        rw [← journal, List.cons_append, ← acted]
        rfl
      rw [List.append_cancel_right split] at noted
      rcases List.mem_cons.mp noted with parked | earlier
      · cases parked
      · cases (strode.halts acted earlier).1
    | finish _ => exact absurd (List.self_eq_append_left.mp journal) (List.ne_nil_of_mem noted)
    | pass _ | drop _ | start _ _ | resume _ _ | create | created | step _ | stepped | collided
    | handle _ _ _ | handled _ | commit | transition _ | transitionFailed _ | request _ | requestFailed _
    | close => cases walking

/-- The step that carries out the action leaves the world that the action leaves, and ends the tick there. -/
theorem EndsGame.halts (ends : EndsGame v message m next) :
    next.world = (m.world.act v (.endGame message)).1 ∧ next.ending = some .halted := by
  have journal : next.world.journal = [.performed v (.endGame message)] ++ m.world.journal := ends.noted
  exact (step_moved ends.stepped).halts journal (List.mem_singleton_self _)

/-- An action that ends the game and was noted in a tick was carried out by one of its steps. -/
theorem steps_end_game {w : World τ} {delta : τ} (inside : Steps (begin w delta) m)
    (noted : .performed v (.endGame message) ∈ m.world.journal) :
    ∃ before after, Steps (begin w delta) before ∧ EndsGame v message before after := by
  obtain ⟨before, after, entries, inside, stepped, journal, new, _⟩ := steps_noted inside noted
  refine ⟨before, after, inside, stepped, ?_⟩
  rw [((step_moved stepped).halts journal new).1]
  rfl

end Moment

namespace Game

variable {g : Game τ} {delta : τ} {m next : Moment τ} {v : Invocation} {message : String}

/-- A tick in which an action ends the game gives the world right after the action, and no fault. -/
theorem Plays.end_game (plays : g.Plays delta) (inside : Moment.Steps (.begin g.world delta) m)
    (ends : Moment.EndsGame v message m next) :
    g.tick delta = (⟨(m.world.act v (.endGame message)).1, g.faults⟩, none) := by
  obtain ⟨world, ending⟩ := ends.halts
  obtain ⟨last, later, same, finished⟩ := Moment.tick_goes_on (inside.tail ends.stepped)
  -- the moment after the action has ended, so it is the last one
  cases later.ended ending
  have halted : (g.world.tick delta).ending = .halted := Option.some.inj (finished.symm.trans ending)
  rw [plays.tick, settle, halted, ← same, world]

/-- A tick that plays leaves the journal of its world, whether or not it fails. -/
private theorem Plays.journal (plays : g.Plays delta) :
    (g.tick delta).1.world.journal = (g.world.tick delta).world.journal := by
  rw [plays.tick, settle]
  split <;> rfl

/-- The journal of a tick tells whether a step of it has ended the game. -/
theorem Plays.end_game_iff (plays : g.Plays delta) :
    .performed v (.endGame message) ∈ (g.tick delta).1.world.journal ↔
      ∃ m next, Moment.Steps (.begin g.world delta) m ∧ Moment.EndsGame v message m next := by
  constructor
  · intro noted
    obtain ⟨last, inside, world, _⟩ := Moment.tick_passes g.world delta
    rw [plays.journal, ← world] at noted
    exact Moment.steps_end_game inside noted
  · rintro ⟨m, next, inside, ends⟩
    rw [plays.end_game inside ends]
    exact List.mem_cons_self

/-- The message of a game that is over stays through any further calls of the run. -/
private theorem over_after (ended : g.world.status = .finish message) {calls : List (HostCall τ)}
    (stay : ∀ c ∈ calls, c.staysInRun = true) : (g.after calls).world.status = .finish message := by
  have stopped : g.state = .stopped := congrArg Status.state ended
  exact (stopped_stands stopped stay).status.trans ended

/-- A tick of a game that is over changes nothing. -/
private theorem over_tick (ended : g.world.status = .finish message) {length : τ}
    (finite : Scalar.isFinite length = true) (forward : ¬ length < 0) : g.tick length = (g, none) := by
  have dead : g.state.isLive = false := congrArg (RunState.isLive ∘ Status.state) ended
  simp [tick, finite, forward, dead]

/-- Let a tick of any game play. An action has ended the game in it iff a step of it carries out this action.
The step changes nothing but the status, and no moment comes after it: the tick gives back no fault and the
game right after the action, which is over with the message of the action. Until the next start or reset it
stays over with this message, and no tick of a valid length changes anything. -/
theorem end_game_is_last (g : Game τ) (delta : τ) (v : Invocation) (message : String) :
    g.Plays delta →
      (.performed v (.endGame message) ∈ (g.tick delta).1.world.journal ↔
        ∃ m next, Moment.Steps (.begin g.world delta) m ∧ Moment.EndsGame v message m next) ∧
      ∀ m next, Moment.Steps (.begin g.world delta) m → Moment.EndsGame v message m next →
        let final : Game τ := ⟨(m.world.act v (.endGame message)).1, g.faults⟩
        final.world = { m.world with status := .finish message }.note (.performed v (.endGame message)) ∧
        (∀ later, Moment.Steps next later → later = next) ∧
        g.tick delta = (final, none) ∧
        ∀ calls : List (HostCall τ), (∀ c ∈ calls, c.staysInRun = true) →
          let h := final.after calls
          h.world.status = .finish message ∧
          ∀ length, Scalar.isFinite length = true → ¬ length < 0 → h.tick length = (h, none) := by
  intro plays
  refine ⟨plays.end_game_iff, fun m next inside ends => ?_⟩
  intro final
  refine ⟨rfl, fun later steps => steps.ended ends.halts.2, plays.end_game inside ends,
    fun calls stay => ?_⟩
  -- no later call of the run begins another one, so the message stays
  have still : (final.after calls).world.status = .finish message := over_after rfl stay
  exact ⟨still, fun length finite forward => over_tick still finite forward⟩

/-- The cat naps. When it wakes up it asks for a kitten, scores and says farewell within an if-block; it would
score again after the message and after the block. -/
def farewell : Project where
  version := 1
  declarations := []
  objects := [⟨"cat", "Cat", none, some 1, some 1, false, [],
    [⟨.step, .act (.wait (.literal (.number 5))) (.branch
      ⟨.literal (.bool true), .eq, .literal (.bool true)⟩
      (.act (.spawnObject "cat" (.literal (.number 0)) (.literal (.number 0)) false)
        (.act (.changeScore (.literal (.number 1))) (.act (.endGame "farewell")
          (.act (.changeScore (.literal (.number 1))) .done))))
      .done
      (.act (.changeScore (.literal (.number 1))) .done))⟩]⟩]
  rooms := [⟨"room", "Room", 10, 10, [⟨"bed", "cat", 0, 0, none⟩]⟩]
  sprites := []
  sounds := []

/-- The cat scores once, and its kitten is never born. -/
theorem end_game_is_last_farewell :
    let g : Game Float := (new .default).after [.start farewell "room", .tick 16]
    let step : Invocation := ⟨1, 0, 0, none⟩
    g.Plays 16 ∧ (∃ m next, Moment.Steps (.begin g.world 16) m ∧ Moment.EndsGame step "farewell" m next) ∧
      (g.tick 16).2 = none ∧ (g.tick 16).1.world.status = .finish "farewell" ∧
      (g.tick 16).1.world.score = 1 ∧ (g.tick 16).1.world.instances.length = 1 ∧
      (g.tick 16).1.world.pending.spawns.length = 1 ∧
      ((g.tick 16).1.after [.press "x"]).tick 16 = ((g.tick 16).1.after [.press "x"], none) := by
  have plays : ((new .default : Game Float).after [.start farewell "room", .tick 16]).Plays 16 := by
    decide +kernel
  have noted : .performed ⟨1, 0, 0, none⟩ (.endGame "farewell") ∈
      (((new .default : Game Float).after [.start farewell "room", .tick 16]).tick 16).1.world.journal := by
    decide +kernel
  have left : let w := (((new .default : Game Float).after [.start farewell "room", .tick 16]).tick 16).1.world
      w.score = 1 ∧ w.instances.length = 1 ∧ w.pending.spawns.length = 1 := by decide +kernel
  obtain ⟨carried, last⟩ := end_game_is_last _ _ _ _ plays
  obtain ⟨m, next, inside, ends⟩ := carried.mp noted
  obtain ⟨_, _, ticked, later⟩ := last m next inside ends
  have stay : ∀ c ∈ [(.press "x" : HostCall Float)], c.staysInRun = true := by decide
  dsimp only at left ⊢
  -- the tick leaves the world as it was after the action
  rw [ticked] at left ⊢
  obtain ⟨_, still⟩ := later [.press "x"] stay
  exact ⟨plays, ⟨m, next, inside, ends⟩, rfl, rfl, left.1, left.2.1, left.2.2, still 16 rfl (by decide +kernel)⟩

end Game

end Gameplay
