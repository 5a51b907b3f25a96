import Gameplay.Proofs.Freshness
import Gameplay.Proofs.RoomChange

/-!
# The ticks of a run

A host calls for many things, but a run goes on in the ticks that it plays. They are listed with the game
before and the game after each, so that what happened in a run is what happened on its ticks, in order.

## Main results

`along_calls`: what is kept by every tick and by every other call of a run is kept by all calls of the run.
`Plays.ready`: every tick that plays begins in a world that is ready for it.
-/

namespace Gameplay.Game

variable {τ : Type} [Scalar τ] {g : Game τ} {calls : List (HostCall τ)} {delta : τ}

/-- The ticks that calls play: the game before each and the game after it. -/
def ticks : Game τ → List (HostCall τ) → List (Game τ × Game τ)
  | _, [] => []
  | g, c :: calls =>
    (if (g.length? c).isSome then [(g, (g.call c).1)] else []) ++ ticks (g.call c).1 calls

theorem ticks_append (g : Game τ) (calls later : List (HostCall τ)) :
    g.ticks (calls ++ later) = g.ticks calls ++ (g.after calls).ticks later := by
  induction calls generalizing g with
  | nil => rfl
  | cons c calls ih => rw [List.cons_append, ticks, ticks, ih, after_cons, List.append_assoc]

theorem ticks_tick (plays : (g.after calls).Plays delta) :
    g.ticks (calls ++ [.tick delta]) = g.ticks calls ++ [(g.after calls, ((g.after calls).tick delta).1)] := by
  simp [ticks_append, ticks, length?, plays, call]

theorem ticks_still {c : HostCall τ} (still : (g.after calls).length? c = none) :
    g.ticks (calls ++ [c]) = g.ticks calls := by
  simp [ticks_append, ticks, still]

/-- A tick on the list stands between what was called before it and what was called after. -/
theorem mem_ticks {before after : Game τ} (listed : (before, after) ∈ g.ticks calls) :
    ∃ earlier delta rest, calls = earlier ++ .tick delta :: rest ∧ before = g.after earlier ∧
      before.Plays delta ∧ after = (before.tick delta).1 := by
  induction calls generalizing g with
  | nil => cases listed
  | cons c calls ih =>
    rcases List.mem_append.mp listed with now | later
    · cases c with
      | tick delta =>
        simp only [length?] at now
        split at now
        next plays =>
          cases List.mem_singleton.mp now
          exact ⟨[], delta, calls, rfl, rfl, plays, rfl⟩
        · cases now
      | start _ _ | press _ | release _ | releaseAll | stop | reset | takeSounds | snapshot => cases now
    · obtain ⟨earlier, delta, rest, rfl, same, plays, next⟩ := ih later
      exact ⟨c :: earlier, delta, rest, rfl, same, plays, next⟩

/-- What ticks and other calls keep is kept by all calls that begin no other run. -/
theorem along_calls {P : List (HostCall τ) → Prop} (first : P [])
    (ticked : ∀ calls delta, (∀ c ∈ calls, c.staysInRun = true) → (g.after calls).Plays delta →
      P calls → P (calls ++ [.tick delta]))
    (stopped : ∀ calls c, (g.after calls).length? c = none →
      (g.after (calls ++ [c])).world = (g.after calls).world.stop → P calls → P (calls ++ [c]))
    (aside : ∀ calls c keys sounds, (g.after calls).length? c = none →
      (g.after (calls ++ [c])).world = { (g.after calls).world with keys := keys, sounds := sounds } →
      P calls → P (calls ++ [c]))
    {calls : List (HostCall τ)} (stay : ∀ c ∈ calls, c.staysInRun = true) : P calls := by
  induction calls using List.reverseRecOn with
  | nil => exact first
  | append_singleton calls c ih =>
    have stay' : ∀ c ∈ calls, c.staysInRun = true := fun c listed => stay c (List.mem_append_left _ listed)
    have before := ih stay'
    have same : g.after (calls ++ [c]) = ((g.after calls).call c).1 := after_append g calls [c]
    -- a call ticks, stops the run or leaves all but the keys and sounds as it is
    rcases (g.after calls).call_cases (stay c (by simp)) with
      ⟨delta, rfl, plays⟩ | ⟨still, stop | ⟨keys, sounds, rest⟩⟩
    · exact ticked calls delta stay' plays before
    · exact stopped calls c still (by rw [same, stop]) before
    · exact aside calls c keys sounds still (by rw [same, rest]) before

/-- Within a run the program stays, ids are not taken back, and an instance with an id that had been given out
was there before. -/
theorem after_carries (coherent : g.world.Coherent) (stay : ∀ c ∈ calls, c.staysInRun = true) :
    (g.after calls).world.program = g.world.program ∧ g.world.lastId ≤ (g.after calls).world.lastId ∧
      ∀ j ∈ (g.after calls).world.instances, j.id ≤ g.world.lastId → ∃ i ∈ g.world.instances, i.Persists j := by
  have later := Instant.later_after g stay
  refine ⟨?_, ?_⟩
  · exact later.keeps (P := fun w => w.program = g.world.program) coherent rfl
      fun becomes same => becomes.sameProgram.2.trans same
  · obtain ⟨created, carries⟩ := later.carries coherent
    constructor
    · have grown : (g.after calls).world.lastId = g.world.lastId + created.length := carries.lastId
      omega
    · exact fun j member given => carries.before member given

theorem Plays.ready [Timed τ] {settings : Settings}
    (plays : ((new settings : Game τ).after calls).Plays delta) :
    ((new settings : Game τ).after calls).world.Ready where
  coherent := after_coherent settings calls
  alive := after_intact settings calls plays.live
  clear := (after_settled settings calls).pending plays.live

/-- Whether or not a tick fails, the instances after it are those of its world, at most without their waits. -/
theorem Plays.members (plays : g.Plays delta) {j : Instance τ} (member : j ∈ (g.tick delta).1.world.instances) :
    ∃ k ∈ (g.world.tick delta).world.instances, j = k ∨ j = { k with waits := [] } := by
  rw [plays.tick, settle] at member
  split at member
  · obtain ⟨k, there, rfl⟩ := List.mem_map.mp member
    exact ⟨k, there, .inr rfl⟩
  · exact ⟨j, member, .inl rfl⟩

end Gameplay.Game
