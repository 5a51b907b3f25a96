import Gameplay.Proofs.Guises

/-!
# Presentation

What is shown to the host never comes back into the game: neither toasts, the score, sounds or counted faults,
nor when the host looks at them.

## Main result

`presentation_inert`: games that differ in these only give the same replies to the same calls.
-/

namespace Gameplay

variable {τ : Type}

/-- Whether a call does more than look: all do but those that take sounds or a snapshot. -/
def HostCall.acts : HostCall τ → Bool
  | .takeSounds => false
  | .snapshot => false
  | _ => true

namespace Game

variable [Scalar τ] {g g' : Game τ}

/-- What the calls that act give back, one after the other. -/
def outcomes : Game τ → List (HostCall τ) → List (Reply τ)
  | _, [] => []
  | g, c :: calls =>
    if c.acts then (g.call c).2 :: outcomes (g.call c).1 calls else outcomes (g.call c).1 calls

/-- Games with worlds that match. Their faults may have been counted differently. -/
def Matches (g g' : Game τ) : Prop := g.world.Matches g'.world

omit [Scalar τ] in
/-- Games that match are drawn the same but for the score, the toasts and the number of faults. -/
theorem Matches.snapshot (same : g.Matches g') :
    g'.snapshot =
      { g.snapshot with score := g'.world.score, toasts := g'.world.toasts, faults := g'.faults } := by
  obtain ⟨world, faults⟩ := g'
  obtain ⟨_, _, rfl⟩ := same
  rfl

private theorem Matches.stop {w w' : World τ} (same : w.Matches w') : w.stop.Matches w'.stop := by
  obtain ⟨guise, _, rfl⟩ := same
  exact ⟨⟨.empty, .empty, guise.score, guise.sounds, guise.journal⟩, .refl _, rfl⟩

private theorem Matches.settle {p p' : Played τ} (alike : World.PlaysAlike p p') (faults faults' : Nat) :
    (settle p faults).1.Matches (settle p' faults').1 ∧ (settle p' faults').2 = (settle p faults).2 := by
  simp only [Game.settle, alike.ending]
  split
  · exact ⟨Matches.stop alike.world, rfl⟩
  · exact ⟨alike.world, rfl⟩

private theorem Matches.reset (same : g.Matches g') : g'.world.reset = g.world.reset := by
  simp only [World.reset, World.Matches.settings same, World.Matches.random same]

private theorem Matches.start (same : g.Matches g') (project : Project) (room : String) :
    (g.start project room).1.Matches (g'.start project room).1 ∧
      (g'.start project room).2 = (g.start project room).2 := by
  simp only [Game.start, same.reset]
  split
  · exact ⟨.refl _, rfl⟩
  · exact Matches.settle ⟨.refl _, rfl⟩ _ _

private theorem Matches.tick (same : g.Matches g') (delta : τ) :
    (g.tick delta).1.Matches (g'.tick delta).1 ∧ (g'.tick delta).2 = (g.tick delta).2 := by
  have state : g'.state = g.state := congrArg Status.state (World.Matches.status same)
  -- both games refuse the same call, so the splits below fall alike
  simp only [Game.tick, state]
  split
  · exact ⟨Matches.stop same, rfl⟩
  · split
    · exact ⟨Matches.stop same, rfl⟩
    · split
      · exact ⟨same, rfl⟩
      · exact Matches.settle (World.Matches.tick same delta) _ _

omit [Scalar τ] in
private theorem Matches.onKeys (same : g.Matches g') {f : Keyboard → Keyboard}
    (kept : ∀ {k k' : Keyboard}, k.Same k' → (f k).Same (f k')) : (g.onKeys f).Matches (g'.onKeys f) := by
  obtain ⟨world, faults⟩ := g'
  obtain ⟨guise, keys, rfl⟩ := same
  exact ⟨{ guise with keys := f guise.keys }, kept keys, rfl⟩

/-- A call that acts gives back the same in games that match, and they still match. -/
theorem Matches.call (same : g.Matches g') {c : HostCall τ} (acts : c.acts = true) :
    (g.call c).1.Matches (g'.call c).1 ∧ (g'.call c).2 = (g.call c).2 := by
  cases c with
  | start project room =>
    obtain ⟨started, result⟩ := same.start project room
    exact ⟨started, congrArg Reply.result result⟩
  | tick delta =>
    obtain ⟨ticked, result⟩ := same.tick delta
    exact ⟨ticked, congrArg Reply.result result⟩
  | press key => exact ⟨same.onKeys (·.press key), rfl⟩
  | release key => exact ⟨same.onKeys (·.release key), rfl⟩
  | releaseAll => exact ⟨same.onKeys (·.releaseAll), rfl⟩
  | stop => exact ⟨Matches.stop same, rfl⟩
  | reset =>
    refine ⟨?_, rfl⟩
    show g.world.reset.Matches g'.world.reset
    -- matching games are reset to one and the same world, guise and all
    rw [same.reset]
    exact .refl _
  | takeSounds | snapshot => cases acts

theorem Matches.look (same : g.Matches g') {c : HostCall τ} (looks : c.acts = false) :
    (g.call c).1.Matches g' := by
  cases c with
  | takeSounds =>
    obtain ⟨world, faults⟩ := g'
    obtain ⟨guise, keys, rfl⟩ := same
    exact ⟨guise, keys, rfl⟩
  | snapshot => exact same
  | _ => cases looks

/-- Calls that only look may be left out. -/
theorem Matches.without_looks (same : g.Matches g') (calls : List (HostCall τ)) :
    g'.outcomes (calls.filter (·.acts)) = g.outcomes calls ∧
      (g.after calls).Matches (g'.after (calls.filter (·.acts))) := by
  induction calls generalizing g g' with
  | nil => exact ⟨rfl, same⟩
  | cons c calls ih =>
    by_cases acts : c.acts = true
    · obtain ⟨called, reply⟩ := same.call acts
      obtain ⟨replies, still⟩ := ih called
      rw [List.filter_cons_of_pos acts]
      refine ⟨?_, still⟩
      simp only [outcomes, acts, if_true, reply, replies]
    · rw [List.filter_cons_of_neg acts]
      simp only [outcomes, acts]
      exact ih (same.look (by simpa using acts))

/-- What is shown never comes back into the game. Two games that differ only in toasts, score, sounds not
yet taken and counted faults give the same replies to the same calls, and then still differ only in these,
however often sounds and snapshots are taken from either in between. -/
theorem presentation_inert (same : g.Matches g') {calls calls' : List (HostCall τ)}
    (alike : calls'.filter (·.acts) = calls.filter (·.acts)) :
    g'.outcomes calls' = g.outcomes calls ∧ (g.after calls).Matches (g'.after calls') := by
  -- between the two runs stands that of the second game by the calls that act alone
  obtain ⟨replies, there⟩ := same.without_looks calls
  obtain ⟨replies', back⟩ := Matches.without_looks (.refl g'.world) calls'
  rw [alike] at replies' back
  exact ⟨replies'.symm.trans replies, there.trans back.symm⟩

/-- The cat walks. While a key is held it also meows, scores and says so. -/
def meowing : Project where
  version := 1
  declarations := []
  objects := [⟨"cat", "Cat", none, some 1, some 1, false, [],
    [⟨.step, .act (.move (.literal (.number 1)) (.literal (.number 0))) (.branch
      ⟨.key "x" .held, .eq, .literal (.bool true)⟩
      (.act (.changeScore (.literal (.number 1))) (.act (.message "meow" none)
        (.act (.playSound "meow") .done)))
      .done .done)⟩]⟩]
  rooms := [⟨"room", "Room", 10, 10, [⟨"mat", "cat", 0, 0, none⟩]⟩]
  sprites := []
  sounds := []

/-- One cat has meowed and one has not, after a fault; from then on they do the same. -/
theorem presentation_inert_meowing :
    let g : Game Float :=
      (new .default).after [.start meowing "room", .press "x", .tick 16, .release "x", .tick 16]
    let g' : Game Float := (new .default).after [.tick (-1), .start meowing "room", .tick 16, .tick 16]
    let calls : List (HostCall Float) := [.takeSounds, .tick 16, .press "x", .snapshot, .tick 16]
    let calls' : List (HostCall Float) := [.tick 16, .press "x", .tick 16, .takeSounds]
    g.world.score ≠ g'.world.score ∧ g.world.toasts ≠ g'.world.toasts ∧
      g.world.sounds ≠ g'.world.sounds ∧ g.faults ≠ g'.faults ∧ g.Matches g' ∧
      calls'.filter (·.acts) = calls.filter (·.acts) ∧
      g'.outcomes calls' = g.outcomes calls ∧ (g.after calls).Matches (g'.after calls') := by
  intro g g' calls calls'
  have score : g.world.score ≠ g'.world.score := by decide +kernel
  have toasts : g.world.toasts ≠ g'.world.toasts := by decide +kernel
  have sounds : g.world.sounds ≠ g'.world.sounds := by decide +kernel
  have faults : g.faults ≠ g'.faults := by decide +kernel
  have keys : g'.world.keys = g.world.keys := by decide +kernel
  -- but for their guise the two worlds are the same
  have rest : g'.world = g.world.inGuise ⟨g'.world.keys, g'.world.toasts, g'.world.score, g'.world.sounds,
      g'.world.journal⟩ := by decide +kernel
  have same : g.Matches g' := ⟨_, fun _ _ => by rw [keys], rest⟩
  have alike : calls'.filter (·.acts) = calls.filter (·.acts) := rfl
  exact ⟨score, toasts, sounds, faults, same, alike, presentation_inert same alike⟩

end Game

end Gameplay
