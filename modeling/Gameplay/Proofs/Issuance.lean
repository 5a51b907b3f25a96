import Gameplay.Proofs.Completion
import Gameplay.Proofs.Resumption

/-!
# The tick that issues a wait

A tick may issue a wait in any of its phases, also when it resumes another one. The wait keeps what its script
has left. To the end of the tick it stays as it was issued, for as long as its instance is there.

## Main results

`steps_suspend`: a wait was issued by a step at a wait action, and keeps the scripts after it.
`tick_suspended`: what a tick leaves of the waits that it has issued.
-/

namespace Gameplay

variable {τ : Type} [Scalar τ]

/-- A wait as the tick that has issued it leaves it. -/
structure World.Issued (w : World τ) (v : Invocation) (wait : Wait τ) : Prop where
  slot : wait.slot = v.slot
  elapsed : wait.elapsed = 0
  issued : wait.issued = w.clock.tick
  given : v.actor ≤ w.lastId
  keeps : w.Keeps v wait

namespace Moment

variable {m next : Moment τ} {v : Invocation} {wait : Wait τ}

/-- A wait that a step has issued is held as it was issued. -/
private theorem suspended_issued (coherent : m.Coherent) (moved : Moved m next) {steps : Nat}
    {frames : List Frame} (walking : m.walking = some ⟨v, steps, frames⟩) (slot : wait.slot = v.slot)
    (elapsed : wait.elapsed = 0) (issued : wait.issued = m.world.clock.tick)
    (held : ∀ i ∈ next.world.instances, i.id = v.actor → wait ∈ i.waits) :
    next.world.Issued v wait := by
  -- the instance that is walked is there, and it is the one that the wait is parked on
  obtain ⟨⟨i, member, mine, object⟩, _⟩ := coherent.walking _ walking
  dsimp only at mine object
  have given : v.actor ≤ m.world.lastId := mine ▸ (coherent.world.instances i member).given
  refine ⟨slot, elapsed, ?_, Nat.le_trans given (moved.lastId coherent), fun j there same => ?_⟩
  · rw [moved.sameGame.clock]
    exact issued
  · refine ⟨?_, held j there same⟩
    obtain ⟨before, present, follows⟩ := moved.before coherent (same ▸ given) there
    have only : before = i :=
      List.inj_on_of_nodup_map coherent.world.ids present member
        (follows.id.symm.trans (same.trans mine.symm))
    rw [follows.object, only, object]

/-- Time does not count for a wait in the tick that has issued it, so the wait stays as it is. -/
private theorem issued_stays (coherent : m.Coherent) (moved : Moved m next)
    (known : m.world.Issued v wait) : next.world.Issued v wait := by
  have clock : next.world.clock = m.world.clock := moved.sameGame.clock
  constructor
  · exact known.slot
  · exact known.elapsed
  · exact clock ▸ known.issued
  · exact Nat.le_trans known.given (moved.lastId coherent)
  · apply moved.each coherent known.given known.keeps
    · rintro object waits new _ ⟨same, held⟩
      exact ⟨same, List.mem_append_left _ held⟩
    · -- the instance may be handled after the wait was issued, in the create phase
      rintro head object waits _ _ _ ⟨same, held⟩
      have unaged : wait.age m.world.clock.delta m.world.clock.tick = wait := by
        rw [Wait.age, if_pos known.issued]
      exact ⟨same, Waits.mem_kept.mpr ⟨⟨wait, held, unaged⟩, fun _ => known.issued⟩⟩

/-- What a tick has noted of waits: those that it suspended are held, and it resumed only earlier ones. -/
private structure Issues (m : Moment τ) : Prop where
  coherent : m.Coherent
  suspended : ∀ v wait, .suspended v wait ∈ m.world.journal → m.world.Issued v wait
  resumed : ∀ v wait, .resumed v wait ∈ m.world.journal → wait.issued ≠ m.world.clock.tick

/-- A step keeps what is known of the waits that were noted, and adds what is known of its own. -/
private theorem Issues.moved (issues : Issues m) (moved : Moved m next) : Issues next := by
  have coherent := issues.coherent
  obtain ⟨entries, journal, notes, _⟩ := moved.notes
  refine ⟨coherent.moved moved, fun v wait noted => ?_, fun v wait noted => ?_⟩
  · rw [journal] at noted
    rcases List.mem_append.mp noted with new | old
    · cases notes _ new with
      | suspended walking slot elapsed issued held =>
        exact suspended_issued coherent moved walking slot elapsed issued held
    · exact issued_stays coherent moved (issues.suspended v wait old)
  · rw [journal] at noted
    rw [moved.sameGame.clock]
    rcases List.mem_append.mp noted with new | old
    · cases notes _ new with
      -- a turn on the agenda resumes a wait of an earlier tick
      | resumed _ turn _ =>
        cases coherent.turns _ (turn ▸ List.mem_cons_self) with
        | resume _ _ earlier => exact earlier
    · exact issues.resumed v wait old

/-- A step in which an invocation comes to a wait action. The wait keeps the items after it, and then those after
each if-block around it. -/
structure Suspends (v : Invocation) (wait : Wait τ) (rests : List Script) (m next : Moment τ) : Prop where
  stepped : m.step = some next
  noted : ∃ entries, next.world.journal = .suspended v wait :: (entries ++ m.world.journal)
  comes : ∃ steps frames operand rest outer, m.walking = some ⟨v, steps, frames⟩ ∧
    List.Forall₂ m.world.program.arena.Stands frames (.act (.wait operand) rest :: outer) ∧
    (m.world.act v (.wait operand)).2 = .suspend wait.duration ∧ rests = rest :: outer
  leaves : m.world.program.Leaves v.object v.slot wait.frames rests

/-- A step of a walk that parks it has come to a wait action. -/
private theorem park_suspends {w w' : World τ} {phase : Phase} {steps : Nat} {frames left : List Frame}
    {duration : τ} {agenda : List (Turn τ)} {ahead : List (Instance τ)}
    (coherent : Coherent ⟨w, phase, some ⟨v, steps, frames⟩, agenda, ahead, none⟩)
    (funded : Funded ⟨w, phase, some ⟨v, steps, frames⟩, agenda, ahead, none⟩)
    (strode : World.Strode v w frames w' (.stop (.suspended duration left)))
    (stepped : step ⟨w, phase, some ⟨v, steps, frames⟩, agenda, ahead, none⟩ =
      some ⟨w'.park v duration left, phase, none, agenda, ahead, none⟩) :
    ∃ rests, Suspends v ⟨v.slot, left, duration, 0, w'.clock.tick, v.partner⟩ rests
      ⟨w, phase, some ⟨v, steps, frames⟩, agenda, ahead, none⟩
      ⟨w'.park v duration left, phase, none, agenda, ahead, none⟩ := by
  obtain ⟨_, body, found, path⟩ := coherent.walking _ rfl
  obtain ⟨scripts, stands, _⟩ := funded _ rfl
  obtain ⟨entries, acted, _⟩ := strode.performs
  -- the wait is noted after what the walk has done in this step
  have journal : (w'.park v duration left).journal =
      .suspended v ⟨v.slot, left, duration, 0, w'.clock.tick, v.partner⟩ :: (entries ++ w.journal) := by
    rw [← acted]
    rfl
  cases strode with
  | suspend listed node acted =>
    obtain ⟨⟨operand, rfl⟩, _⟩ := World.act_suspend acted
    cases stands with
    | cons head tail =>
      -- the innermost script goes on after the wait, and the scripts around it are as they were
      obtain ⟨rest, rfl, next⟩ := head.act listed node
      have place := path.resolve_left nofun
      exact ⟨_, stepped, ⟨entries, journal⟩,
        ⟨steps, _, operand, rest, _, rfl, .cons head tail, congrArg Prod.snd acted, rfl⟩,
        ⟨body, found, place.pass listed⟩, .cons next tail⟩

/-- A wait that a tick has issued was issued by one of its steps. -/
theorem steps_suspend {w : World τ} {delta : τ} (world : w.Coherent) (inside : Steps (begin w delta) m)
    (noted : .suspended v wait ∈ m.world.journal) :
    ∃ rests before after, Steps (begin w delta) before ∧ Suspends v wait rests before after := by
  obtain ⟨before, after, entries, inside, stepped, journal, new, _⟩ := steps_noted inside noted
  have coherent := steps_coherent world inside
  have funded := steps_funded world inside
  have moved := step_moved stepped
  obtain ⟨_, journal', notes, _⟩ := moved.notes
  cases List.append_cancel_right (journal.symm.trans journal')
  cases notes _ new with
  | suspended walking _ _ _ _ =>
    cases moved with
    | walk strode | halt strode | fail strode =>
      obtain ⟨_, acted, performed⟩ := strode.performs
      cases List.append_cancel_right (journal.symm.trans acted)
      obtain ⟨action, other⟩ := performed _ new
      cases other
    | @park w w' _ _ _ _ left duration _ _ strode =>
      cases walking
      -- besides its action a wait notes that the invocation is suspended
      obtain ⟨acts, acted, performed⟩ := strode.performs
      have split : entries ++ w.journal =
          .suspended v ⟨v.slot, left, duration, 0, w'.clock.tick, v.partner⟩ :: acts ++ w.journal := by
        rw [← journal, List.cons_append, ← acted]
        rfl
      rw [List.append_cancel_right split] at new
      rcases List.mem_cons.mp new with here | earlier
      · cases here
        obtain ⟨rests, suspends⟩ := park_suspends coherent funded strode stepped
        exact ⟨rests, _, _, inside, suspends⟩
      · obtain ⟨action, other⟩ := performed _ earlier
        cases other
    | finish _ =>
      exact absurd (List.self_eq_append_left.mp journal) (List.ne_nil_of_mem new)
    | pass _ | drop _ | start _ _ | resume _ _ | create | created | step _ | stepped | collided
    | handle _ _ _ | handled _ | commit | transition _ | transitionFailed _ | request _ | requestFailed _
    | close => cases walking

end Moment

/-- What a tick leaves of a wait that it has issued. It does not resume the wait. -/
theorem World.tick_suspended {w : World τ} {delta : τ} {v : Invocation} {wait : Wait τ}
    (coherent : w.Coherent) (noted : .suspended v wait ∈ (w.tick delta).world.happenings) :
    (w.tick delta).world.Issued v wait ∧ (w.tick delta).world.resumptions v wait = [] := by
  obtain ⟨last, inside, world, _⟩ := Moment.tick_passes w delta
  have first : Moment.Issues (.begin w delta) := by
    refine ⟨Moment.begin_coherent coherent delta, ?_, ?_⟩
    · rw [Moment.begin_world]
      exact fun _ _ noted => absurd noted List.not_mem_nil
    · rw [Moment.begin_world]
      exact fun _ _ noted => absurd noted List.not_mem_nil
  have issues := inside.invariant first fun moved issues => issues.moved moved
  rw [← world] at noted ⊢
  have known := issues.suspended v wait (List.mem_reverse.mp noted)
  refine ⟨known, ?_⟩
  -- the wait bears the number of this tick, and what is resumed was issued in an earlier one
  rw [resumptions, List.filter_eq_nil_iff]
  intro h happened resumes
  cases h with
  | resumed u x =>
    simp only [Happening.resumes, Bool.and_eq_true, beq_iff_eq] at resumes
    exact issues.resumed u x (List.mem_reverse.mp happened) (resumes.2.trans known.issued)
  | started _ | performed _ _ | suspended _ _ | handled _ => cases resumes

end Gameplay
