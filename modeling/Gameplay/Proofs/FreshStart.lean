import Gameplay.Proofs.Calls

/-!
# A start forgets every earlier run

Of what happened before, only the number of faults is left after a start.

## Main result

`start_forgets_earlier_runs`: whatever a host does from a start on, it gets back what it would get from a
new game, except that earlier faults stay counted.

## Proof strategy

Two games are `Alike` if they differ at most in the number of faults and, unless they are live, in the random
generator, which only a live run uses. A start makes games alike that have the same settings
(`start_alike`), and every call keeps them alike and gives back the same (`Alike.call`).
-/

namespace Gameplay

variable {τ : Type}

/-- A reply with more faults counted. -/
def Reply.counting (n : Nat) : Reply τ → Reply τ
  | .seen snapshot => .seen { snapshot with faults := snapshot.faults + n }
  | .done => .done
  | .result fault => .result fault
  | .sounds ids => .sounds ids

def failures (replies : List (Reply τ)) : Nat := replies.countP (·.fault?.isSome)

namespace Game

variable [Scalar τ] {n : Nat} {g g' : Game τ}

/-! ### faults -/

/-- What a call that can fail comes to: it succeeds and counts nothing, or a fault is counted and stops the
world in which it was met. -/
inductive Outcome (faults : Nat) : Game τ × Option (Fault τ) → Prop
  | succeeds (w : World τ) : Outcome faults (⟨w, faults⟩, none)
  | fails (w : World τ) (fault : Fault τ) : Outcome faults (⟨w.stop, faults + 1⟩, some fault)

private theorem settle_outcome (p : Played τ) (faults : Nat) : Outcome faults (settle p faults) := by
  unfold settle
  split
  · exact .fails _ _
  · exact .succeeds _

theorem start_outcome (g : Game τ) (project : Project) (room : String) :
    Outcome g.faults (g.start project room) := by
  unfold start
  dsimp only
  split
  · exact .fails _ _
  · exact settle_outcome _ _

theorem tick_outcome (g : Game τ) (delta : τ) : Outcome g.faults (g.tick delta) := by
  unfold tick
  split
  · exact .fails _ _
  · split
    · exact .fails _ _
    · split
      · exact .succeeds _
      · exact settle_outcome _ _

private theorem Outcome.counts {faults : Nat} {r : Game τ × Option (Fault τ)} (outcome : Outcome faults r) :
    r.1.faults = faults + (if r.2.isSome then 1 else 0) := by
  cases outcome <;> rfl

/-- A call counts one fault if it fails, and none if it succeeds. -/
theorem call_faults (g : Game τ) (c : HostCall τ) :
    (g.call c).1.faults = g.faults + (if (g.call c).2.fault?.isSome then 1 else 0) := by
  cases c with
  | start project room => exact (g.start_outcome project room).counts
  | tick delta => exact (g.tick_outcome delta).counts
  | press _ | release _ | releaseAll | stop | reset | takeSounds | snapshot => rfl

theorem after_faults (g : Game τ) (calls : List (HostCall τ)) :
    (g.after calls).faults = g.faults + failures (g.replies calls) := by
  induction calls generalizing g with
  | nil => rfl
  | cons c calls ih =>
    rw [after_cons, ih, call_faults, failures, failures, replies, List.countP_cons]
    omega

/-! ### games that are alike -/

/-- Games that differ at most in the number of faults and, unless they are live, in the random generator. -/
structure Alike (n : Nat) (g g' : Game τ) : Prop where
  faults : g.faults = g'.faults + n
  world : g.world = g'.world ∨
    g'.state.isLive = false ∧ ∃ random, g.world = { g'.world with random := random }

private theorem settle_alike (p : Played τ) {faults faults' : Nat} (more : faults = faults' + n) :
    (settle p faults).2 = (settle p faults').2 ∧ Alike n (settle p faults).1 (settle p faults').1 := by
  unfold settle
  split
  · refine ⟨rfl, ?_, .inl rfl⟩
    simp only [fail, more]
    omega
  · exact ⟨rfl, more, .inl rfl⟩

private theorem loaded_same {w w' : World τ} (settings : w.settings = w'.settings)
    (project : Project) (program : Program) : loaded w project program = loaded w' project program := by
  simp only [loaded, World.reset, World.initial, settings]

/-- A start forgets whatever the two games differed in. -/
theorem start_alike (settings : g.world.settings = g'.world.settings) (faults : g.faults = g'.faults + n)
    (project : Project) (room : String) :
    (g.start project room).2 = (g'.start project room).2 ∧
      Alike n (g.start project room).1 (g'.start project room).1 := by
  have same : Program.compile project g.world.reset.settings.spriteSize =
      Program.compile project g'.world.reset.settings.spriteSize := by
    simp only [World.reset, World.initial, settings]
  simp only [start, same]
  split
  · -- the run has not begun, so the random generator is the one from before
    refine ⟨rfl, ?_, .inr ⟨rfl, g.world.random, ?_⟩⟩
    · simp only [fail, faults]
      omega
    · simp only [fail, World.stop, World.reset, World.initial, settings, List.map_nil]
  next program _ =>
    -- from here on the two starts compute the same, up to the faults they count
    have clean := loaded_same settings project program
    unfold loaded at clean
    rw [clean]
    exact settle_alike _ faults

private theorem Alike.fail (alike : Alike n g g') (fault : Fault τ) :
    (g.fail fault).2 = (g'.fail fault).2 ∧ Alike n (g.fail fault).1 (g'.fail fault).1 := by
  refine ⟨rfl, ?_, ?_⟩
  · simp only [Game.fail, alike.faults]
    omega
  · rcases alike.world with same | ⟨_, random, same⟩
    · exact .inl (congrArg World.stop same)
    · exact .inr ⟨rfl, random, congrArg World.stop same⟩

omit [Scalar τ] in
private theorem Alike.state (alike : Alike n g g') : g.state = g'.state := by
  rcases alike.world with same | ⟨_, random, same⟩ <;> rw [Game.state, same] <;> rfl

private theorem Alike.tick (alike : Alike n g g') (delta : τ) :
    (g.tick delta).2 = (g'.tick delta).2 ∧ Alike n (g.tick delta).1 (g'.tick delta).1 := by
  simp only [Game.tick, alike.state]
  split
  · exact alike.fail _
  · split
    · exact alike.fail _
    · split
      · exact ⟨rfl, alike⟩
      next live =>
        rcases alike.world with same | ⟨dead, _⟩
        · rw [same]
          exact settle_alike _ alike.faults
        · -- the generators differ only in games that are not live
          exact absurd dead (by simpa using live)

omit [Scalar τ] in
/-- A change of what no run depends on, in which the random generator plays no part. -/
private theorem Alike.map (alike : Alike n g g') (f : World τ → World τ)
    (random : ∀ (w : World τ) random, f { w with random := random } = { f w with random := random })
    (status : ∀ w : World τ, w.status.state.isLive = false → (f w).status.state.isLive = false) :
    Alike n { g with world := f g.world } { g' with world := f g'.world } := by
  refine ⟨alike.faults, ?_⟩
  rcases alike.world with same | ⟨dead, r, same⟩
  · exact .inl (congrArg f same)
  · exact .inr ⟨status _ dead, r, by rw [same]; exact random _ r⟩

/-- A call gives the same back from games that are alike, and leaves them alike. -/
theorem Alike.call (alike : Alike n g g') (c : HostCall τ) :
    (g.call c).2 = (g'.call c).2.counting n ∧ Alike n (g.call c).1 (g'.call c).1 := by
  cases c with
  -- a start is alike on both sides, and the other calls keep the difference as it is
  | start project room =>
    have settings : g.world.settings = g'.world.settings := by
      rcases alike.world with same | ⟨_, _, same⟩ <;> rw [same]
    obtain ⟨fault, started⟩ := start_alike settings alike.faults project room
    exact ⟨congrArg Reply.result fault, started⟩
  | tick delta =>
    obtain ⟨fault, ticked⟩ := alike.tick delta
    exact ⟨congrArg Reply.result fault, ticked⟩
  | press key =>
    exact ⟨rfl, alike.map (fun w => { w with keys := w.keys.press key }) (fun _ _ => rfl) fun _ dead => dead⟩
  | release key =>
    exact ⟨rfl, alike.map (fun w => { w with keys := w.keys.release key }) (fun _ _ => rfl) fun _ dead => dead⟩
  | releaseAll =>
    exact ⟨rfl, alike.map (fun w => { w with keys := w.keys.releaseAll }) (fun _ _ => rfl) fun _ dead => dead⟩
  | stop => exact ⟨rfl, alike.map World.stop (fun _ _ => rfl) fun _ _ => rfl⟩
  | reset => exact ⟨rfl, alike.map World.reset (fun _ _ => rfl) fun _ _ => rfl⟩
  | takeSounds =>
    refine ⟨?_, alike.map (fun w => { w with sounds := [] }) (fun _ _ => rfl) fun _ dead => dead⟩
    rcases alike.world with same | ⟨_, _, same⟩ <;> simp only [Game.call, takeSounds, Reply.counting, same]
  | snapshot =>
    refine ⟨?_, alike⟩
    simp only [Game.call, Reply.counting, Game.snapshot, alike.faults]
    rcases alike.world with same | ⟨_, _, same⟩
    · rw [same]
    · rw [same]
      rfl

theorem Alike.replies (alike : Alike n g g') (calls : List (HostCall τ)) :
    g.replies calls = (g'.replies calls).map (Reply.counting n) := by
  induction calls generalizing g g' with
  | nil => rfl
  | cons c calls ih =>
    obtain ⟨reply, still⟩ := alike.call c
    rw [Game.replies, Game.replies, List.map_cons, reply, ih still]

/-- A start forgets every earlier run. With a seed in the settings, whatever calls came before, a start and
all calls after it give back what they give back from a new game, except that the faults from before are
counted in snapshots. -/
theorem start_forgets_earlier_runs (settings : Settings) (seed : UInt64)
    (history further : List (HostCall τ)) (project : Project) (room : String) :
    let fresh : Game τ := new { settings with seed := some seed }
    (fresh.after history).replies (.start project room :: further) =
      (fresh.replies (.start project room :: further)).map
        (Reply.counting (failures (fresh.replies history))) := by
  intro fresh
  have same : (fresh.after history).world.settings = fresh.world.settings := after_settings _ history
  have faults : (fresh.after history).faults = fresh.faults + failures (fresh.replies history) :=
    after_faults fresh history
  obtain ⟨fault, alike⟩ := start_alike same faults project room
  rw [replies, replies, List.map_cons]
  congr 1
  · exact congrArg Reply.result fault
  · exact alike.replies further

end Game

end Gameplay
