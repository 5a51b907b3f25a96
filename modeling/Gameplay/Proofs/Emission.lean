import Gameplay.Proofs.Deeds
import Gameplay.Proofs.Requests

/-!
# Custom events

Actions emit custom events, which are queued. A round takes all that are queued and handles them, and what is
emitted meanwhile is queued again.

## Main results

`Moved.emits`: a step leaves the queue as it is but for what it emits, or begins a round, or belongs to the end
of the tick.
`steps_account`: at every moment of the events of a tick, what was queued before and what the tick has emitted
is what it has handled and what is queued, in this order.
`steps_rounds`: a tick has no more rounds than the settings allow.
-/

namespace Gameplay

variable {τ : Type}

/-- The custom event that was emitted, if something that happened was this. -/
def Happening.emit? (p : Program) : Happening τ → Option Emit
  | .performed v action => action.emit? p v.object
  | _ => none

/-- The custom events that were handled in a round, if something that happened was one. -/
def Happening.round? : Happening τ → Option (List Emit)
  | .handled emits => some emits
  | _ => none

namespace World

/-- The custom events that the last tick has emitted, in order. -/
def emitted (w : World τ) : List Emit := w.happenings.filterMap (·.emit? w.program)

/-- The rounds of the last tick, in order, each with the custom events that it has handled. -/
def rounds (w : World τ) : List (List Emit) := w.happenings.filterMap Happening.round?

/-- The custom events that are still to be handled, the oldest first. -/
def queue (w : World τ) : List Emit := w.pending.emits.reverse

/-- What was queued before the tick and what it has emitted is what it has handled and what is queued. -/
def Accounts (w : World τ) (queued : List Emit) : Prop :=
  queued ++ w.emitted = w.rounds.flatten ++ w.queue

variable {w w' : World τ} {entries : List (Happening τ)}

theorem emitted_append (program : w'.program = w.program) (journal : w'.journal = entries ++ w.journal) :
    w'.emitted = w.emitted ++ entries.reverse.filterMap (·.emit? w.program) := by
  simp only [emitted, happenings, journal, program, List.reverse_append, List.filterMap_append]

theorem rounds_append (journal : w'.journal = entries ++ w.journal) :
    w'.rounds = w.rounds ++ entries.reverse.filterMap Happening.round? := by
  simp only [rounds, happenings, journal, List.reverse_append, List.filterMap_append]

theorem SameRun.emitted (same : w.SameRun w') : w'.emitted = w.emitted := by
  rw [World.emitted, happenings, same.journal, same.program, World.emitted, happenings]

theorem SameRun.rounds (same : w.SameRun w') : w'.rounds = w.rounds := by
  rw [World.rounds, happenings, same.journal, World.rounds, happenings]

theorem emitted_note (w : World τ) (h : Happening τ) :
    (w.note h).emitted = w.emitted ++ (h.emit? w.program).toList := by
  cases emits : h.emit? w.program <;> simp [emitted, happenings, note, emits]

theorem rounds_note (w : World τ) (h : Happening τ) : (w.note h).rounds = w.rounds ++ h.round?.toList := by
  cases round : h.round? <;> simp [rounds, happenings, note, round]

end World

/-- How many rounds are left of those that a tick may have. -/
def Phase.roundsLeft (most : Nat) : Phase → Nat
  | .create | .step | .collision => most
  | .custom left => left
  | .commit | .transition | .request | .close => 0

namespace Moment

variable [Scalar τ] {w : World τ} {delta : τ} {m next : Moment τ}

/-- The rounds that are left at a moment. -/
def roundsLeft (m : Moment τ) : Nat := m.phase.roundsLeft m.world.settings.maxRounds.toNat

/-- What a step does about custom events. -/
inductive Emits (m next : Moment τ) : Prop
  /-- What it emits joins the queue at the end. -/
  | adds (new : List Emit) : next.roundsLeft ≤ m.roundsLeft → next.world.rounds = m.world.rounds →
      next.world.emitted = m.world.emitted ++ new → next.world.queue = m.world.queue ++ new → Emits m next
  /-- A round begins, and takes what is queued. -/
  | takes : m.walking = none → m.agenda = [] → next.ending = none → next.roundsLeft < m.roundsLeft →
      next.world.rounds = m.world.rounds ++ [m.world.queue] → next.world.emitted = m.world.emitted →
      next.world.queue = [] → next.agenda = (next.world.customInvocations m.world.queue).map .start → Emits m next
  /-- The end of the tick may empty the queue. -/
  | closes : m.walking = none → m.agenda = [] → next.phase.isEarly = false → next.roundsLeft ≤ m.roundsLeft →
      next.world.rounds = m.world.rounds → next.world.emitted = m.world.emitted → Emits m next

/-- A step of a walk emits what its action emits, and queues it. -/
private theorem strode_emits {v : Invocation} {steps : Nat} {frames : List Frame} {stride : Stride τ}
    (walking : m.walking = some ⟨v, steps, frames⟩) (coherent : m.Coherent) {w' : World τ}
    (strode : World.Strode v m.world frames w' stride) :
    ∃ new, w'.rounds = m.world.rounds ∧ w'.emitted = m.world.emitted ++ new ∧
      w'.queue = m.world.queue ++ new := by
  obtain ⟨done, journal, deed⟩ := strode.deed (coherent.actor_present walking)
  refine ⟨(done.bind (·.emit? m.world.program v.object)).toList, ?_, ?_, ?_⟩
  · rw [World.rounds_append journal]
    cases done <;> simp [Happening.round?]
  · rw [World.emitted_append strode.program journal]
    cases done with
    | none => rfl
    | some action => cases emits : action.emit? m.world.program v.object <;> simp [Happening.emit?, emits]
  · rw [World.queue, deed.emits, List.reverse_append, World.queue]
    cases done.bind (·.emit? m.world.program v.object) <;> rfl

omit [Scalar τ] in
private theorem Emits.silent (left : next.roundsLeft ≤ m.roundsLeft) (rounds : next.world.rounds = m.world.rounds)
    (emitted : next.world.emitted = m.world.emitted) (queue : next.world.queue = m.world.queue) :
    Emits m next := by
  refine .adds [] left rounds ?_ ?_
  · rw [emitted, List.append_nil]
  · rw [queue, List.append_nil]

omit [Scalar τ] in
private theorem Emits.late (idle : m.walking = none) (empty : m.agenda = [])
    (late : next.phase.isEarly = false) (same : m.world.SameRun next.world) : Emits m next := by
  refine .closes idle empty late ?_ same.rounds same.emitted
  have none : next.roundsLeft = 0 := by
    unfold roundsLeft
    cases phase : next.phase <;> simp [phase, Phase.isEarly, Phase.roundsLeft] at late ⊢
  rw [none]
  exact Nat.zero_le _

/-- A step emits for the queue, takes the whole queue for a round, or comes after the custom events. -/
theorem Moved.emits (moved : Moved m next) (coherent : m.Coherent) : Emits m next := by
  have settings := moved.sameGame.settings
  cases moved with
  | walk strode | halt strode | fail strode =>
    obtain ⟨new, rounds, emitted, queue⟩ := strode_emits rfl coherent strode
    exact .adds new (by rw [roundsLeft, settings]; exact Nat.le_refl _) rounds emitted queue
  | park strode =>
    obtain ⟨new, rounds, emitted, queue⟩ := strode_emits rfl coherent strode
    refine .adds new (by rw [roundsLeft, settings]; exact Nat.le_refl _) ?_ ?_ queue
    -- that the walk waits is noted as well
    · exact (World.rounds_note _ _).trans ((List.append_nil _).trans rounds)
    · exact (World.emitted_note _ _).trans ((List.append_nil _).trans emitted)
  | finish _ | pass _ | drop _ | create | created | stepped | collided =>
    exact .silent (Nat.le_refl _) rfl rfl rfl
  | start _ _ | resume _ _ =>
    refine .silent (Nat.le_refl _) ?_ ?_ rfl
    · exact (World.rounds_note _ _).trans (List.append_nil _)
    · exact (World.emitted_note _ _).trans (List.append_nil _)
  | step taken =>
    rcases World.takeDue_cases taken with ⟨_, rfl, _⟩ | ⟨_, _, _, rfl⟩ <;>
      exact .silent (Nat.le_refl _) rfl rfl rfl
  | handle queued _ taken =>
    subst queued taken
    refine .takes rfl rfl rfl (Nat.lt_succ_self _) ?_ ?_ rfl rfl
    · exact World.rounds_note _ _
    · exact (World.emitted_note _ _).trans (List.append_nil _)
  | handled _ => exact .silent (Nat.zero_le _) rfl rfl rfl
  | commit => exact .late rfl rfl rfl (World.commit_sameRun _)
  | transition _ | transitionFailed _ => exact .late rfl rfl rfl (World.stepTransition_sameRun _)
  | request _ | requestFailed _ => exact .late rfl rfl rfl (World.followRequest_sameRun _)
  | close => exact .closes rfl rfl rfl (Nat.zero_le _) rfl rfl

/-- What a tick does after its events it does to the end. -/
theorem Moved.early (moved : Moved m next) (early : next.phase.isEarly = true) : m.phase.isEarly = true := by
  cases moved with
  | walk _ | finish _ | park _ | halt _ | fail _ | pass _ | drop _ | start _ _ | resume _ _ => exact early
  | create | created | step _ | stepped | collided | handle _ _ _ | handled _ | commit => rfl
  | transition _ | transitionFailed _ | request _ | requestFailed _ | close => cases early

/-! ### moments of a tick -/

theorem steps_account (coherent : w.Coherent) (inside : Steps (begin w delta) m) (early : m.phase.isEarly = true) :
    m.world.Accounts w.queue := by
  revert early
  refine inside.keeps (P := fun m => m.phase.isEarly = true → m.world.Accounts w.queue)
    (begin_coherent coherent delta) (fun _ => ?_) ?_
  · -- nothing has happened yet
    rw [begin_world]
    exact List.append_nil _
  -- what is emitted joins the queue, and a round takes the queue as it is
  · intro m next moved coherent account early
    have before := account (moved.early early)
    unfold World.Accounts at before ⊢
    cases moved.emits coherent with
    | adds new _ rounds emitted queue =>
      rw [emitted, rounds, queue, ← List.append_assoc, before, List.append_assoc]
    | takes _ _ _ _ rounds emitted queue _ => simp [emitted, rounds, queue, before]
    | closes _ _ late _ _ _ =>
      rw [late] at early
      cases early

/-- The rounds that were begun and those that are left are no more than the settings allow. -/
theorem steps_rounds (coherent : w.Coherent) (inside : Steps (begin w delta) m) :
    m.world.rounds.length + m.roundsLeft ≤ w.settings.maxRounds.toNat := by
  refine inside.keeps (P := fun m => m.world.rounds.length + m.roundsLeft ≤ w.settings.maxRounds.toNat)
    (begin_coherent coherent delta) ?_ ?_
  · have none : (begin w delta).world.rounds = [] := by
      rw [begin_world]
      rfl
    have all : (begin w delta).roundsLeft ≤ w.settings.maxRounds.toNat := by
      unfold begin
      dsimp only
      split
      · exact Nat.zero_le _
      · exact Nat.le_refl _
    rw [none, List.length_nil]
    omega
  -- a step begins a round by using one up, or begins none
  · intro m next moved coherent most
    cases moved.emits coherent with
    | adds _ left rounds _ _ | closes _ _ _ left rounds _ =>
      rw [rounds]
      omega
    | takes _ _ _ left rounds _ _ _ =>
      rw [rounds, List.length_append, List.length_singleton]
      omega

end Moment

end Gameplay
