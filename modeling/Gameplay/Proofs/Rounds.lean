import Gameplay.Proofs.Emission
import Gameplay.Proofs.Instants
import Gameplay.Proofs.Plans

/-!
# Rounds of custom events

A round plans the invocations that its custom events start, for the instances that live when it begins. Then
these have their turns.

## Main results

`steps_turns`: invocations that are listed have their turns one after the other, or the tick is cut short.
`steps_round`: what a step that begins a round brings about.
-/

namespace Gameplay

variable {τ : Type}

namespace World

variable {w : World τ}

/-- An emission is answered by events of its name that name no source, or its source. -/
theorem answers_iff {e : Emit} {trigger : Trigger} : answers e trigger = true ↔
    ∃ source, trigger = .custom e.name source ∧ (source = none ∨ source = some e.source) := by
  cases trigger with
  | create | step | collision _ => simp [answers]
  | custom name source => cases source <;> simp [answers, and_comm]

end World

namespace Moment

variable [Scalar τ] {w : World τ} {delta : τ} {m next last : Moment τ} {plan started : List Invocation}

/-- From a moment to another, the invocations of a plan have their turns, one after the other. At its turn an
invocation is started, or it is passed over since its instance is destroyed or its slot is suspended. When the
tick is cut short no other one has its turn. -/
inductive HasTurns : Moment τ → List Invocation → List Invocation → Moment τ → Prop
  | idle {m : Moment τ} : m.ending = none → m.walking = none → m.agenda = [] → HasTurns m [] [] m
  | cut {m : Moment τ} {plan : List Invocation} : m.ending ≠ none → HasTurns m plan [] m
  | walks {m next last : Moment τ} {plan started : List Invocation} : m.walking ≠ none → m.step = some next →
      HasTurns next plan started last → HasTurns m plan started last
  | passes {m next last : Moment τ} {v : Invocation} {plan started : List Invocation} {rest : List (Turn τ)} :
      m.walking = none → m.agenda = .start v :: rest →
      m.world.isDestroyed v.actor = true ∨ m.world.isSuspended v.actor v.slot = true →
      m.step = some next → next.world = m.world →
      HasTurns next plan started last → HasTurns m (v :: plan) started last
  | starts {m next last : Moment τ} {v : Invocation} {plan started : List Invocation} {rest : List (Turn τ)} :
      m.walking = none → m.agenda = .start v :: rest →
      m.world.isDestroyed v.actor = false → m.world.isSuspended v.actor v.slot = false →
      m.step = some next → next.world = m.world.note (.started v) →
      HasTurns next plan started last → HasTurns m (v :: plan) (v :: started) last

/-- Nothing is started while a walk is in progress. -/
theorem Moved.turns_walking (moved : Moved m next) (walking : m.walking ≠ none) :
    next.world.turns = m.world.turns := by
  obtain ⟨entries, journal, notes, _⟩ := moved.notes
  have none : entries.reverse.filterMap Happening.turn? = [] := by
    apply List.filterMap_eq_nil_iff.mpr
    intro h listed
    cases notes h (List.mem_reverse.mp listed) with
    | performed _ | suspended _ _ _ _ _ => rfl
    | started idle _ _ | resumed idle _ _ | handled idle => exact absurd idle walking
  simp only [World.turns, World.happenings, journal, List.reverse_append, List.filterMap_append, none,
    List.append_nil]

namespace HasTurns

theorem steps (turns : HasTurns m plan started last) : Steps m last := by
  induction turns with
  | idle _ _ _ | cut _ => exact .refl
  | walks _ stepped _ ih => exact ih.head stepped
  | passes _ _ _ stepped _ _ ih => exact ih.head stepped
  | starts _ _ _ _ stepped _ _ ih => exact ih.head stepped

theorem begins (turns : HasTurns m plan started last) : last.world.starts = m.world.starts ++ started := by
  induction turns with
  | idle _ _ _ | cut _ => exact (List.append_nil _).symm
  | walks walking stepped _ ih =>
    rw [ih, World.starts, (step_moved stepped).turns_walking walking, World.starts]
  | passes _ _ _ _ same _ ih => rw [ih, same]
  | starts _ _ _ _ _ same _ ih =>
    rw [ih, same, World.starts, World.turns_note, List.filterMap_append, List.append_assoc]
    rfl

/-- What is emitted meanwhile is queued, and no other round begins. -/
theorem emits (turns : HasTurns m plan started last) (coherent : m.Coherent) :
    ∃ new, last.world.rounds = m.world.rounds ∧ last.world.emitted = m.world.emitted ++ new ∧
      last.world.queue = m.world.queue ++ new := by
  -- the turns of a round add to the queue behind what they answer
  induction turns with
  | idle _ _ _ | cut _ => exact ⟨[], rfl, (List.append_nil _).symm, (List.append_nil _).symm⟩
  | @walks m next _ _ _ walking stepped _ ih =>
    have moved := step_moved stepped
    obtain ⟨later, rounds, emitted, queue⟩ := ih (coherent.moved moved)
    cases moved.emits coherent with
    | adds new _ rounds' emitted' queue' =>
      refine ⟨new ++ later, rounds.trans rounds', ?_, ?_⟩
      · rw [emitted, emitted', List.append_assoc]
      · rw [queue, queue', List.append_assoc]
    | takes idle _ _ _ _ _ _ _ | closes idle _ _ _ _ _ => exact absurd idle walking
  | passes _ _ _ stepped same _ ih =>
    have later := ih (coherent.moved (step_moved stepped))
    rw [same] at later
    exact later
  | starts _ _ _ _ stepped same _ ih =>
    obtain ⟨later, rounds, emitted, queue⟩ := ih (coherent.moved (step_moved stepped))
    rw [same] at rounds emitted queue
    refine ⟨later, ?_, ?_, queue⟩
    · rw [rounds, World.rounds_note]
      exact List.append_nil _
    · rw [emitted, World.emitted_note]
      exact congrArg (· ++ later) (List.append_nil _)

end HasTurns

end Moment

end Gameplay
