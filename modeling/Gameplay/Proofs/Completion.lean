import Gameplay.Proofs.ScriptEquivalence
import Gameplay.Proofs.Suspension

/-!
# Walks come to their end

Whatever happens to its instance, a walk that has begun goes on: to the end of its event, to a wait, or to
an action that ends the run or fails. It is never left because it has run out of steps.

## Main result

`runs_out`: the walk in progress at a moment inside a tick runs out.
-/

namespace Gameplay

namespace Moment

variable {τ : Type} [Scalar τ] {m next : Moment τ} {v : Invocation}

/-- Why a walk is over after a step. -/
inductive Over (v : Invocation) (m after : Moment τ) : Prop
  | ended {steps : Nat} : m.walking = some ⟨v, steps, []⟩ → Over v m after
  | waits {wait : Wait τ} {entries : List (Happening τ)} :
      after.world.journal = .suspended v wait :: (entries ++ m.world.journal) → Over v m after
  | halted : after.ending = some .halted → Over v m after
  | failed {cause : Dangling} : after.ending = some (.failed cause) → Over v m after

/-- The walk of an invocation goes on, step by step, until it is over. -/
inductive RunsOut (v : Invocation) : Moment τ → Moment τ → Prop
  | last {m after : Moment τ} {walk : Walking} : m.walking = some walk → walk.invocation = v →
      m.step = some after → after.walking = none → Over v m after → RunsOut v m after
  | more {m next after : Moment τ} {walk : Walking} : m.walking = some walk → walk.invocation = v →
      m.step = some next → RunsOut v next after → RunsOut v m after

/-- The steps of a walk that runs out are steps of the tick. -/
theorem RunsOut.steps {after : Moment τ} (runs : RunsOut v m after) : Steps m after := by
  induction runs with
  | last _ _ stepped _ _ => exact .single stepped
  | more _ _ stepped _ ih => exact ih.head stepped

theorem RunsOut.idle {after : Moment τ} (runs : RunsOut v m after) : after.walking = none := by
  induction runs with
  | last _ _ _ idle _ => exact idle
  | more _ _ _ _ ih => exact ih

/-- The steps that a walk may still take suffice for the scripts that its frames stand for. -/
def Funded (m : Moment τ) : Prop :=
  ∀ walk, m.walking = some walk → ∃ rests,
    List.Forall₂ m.world.program.arena.Stands walk.frames rests ∧ Script.cost rests ≤ walk.steps

omit [Scalar τ] in
/-- A walk that begins has the steps for all that its frames stand for. -/
private theorem entered_funded (coherent : m.Coherent) {frames : List Frame}
    (walking : m.walking = some ⟨v, m.world.program.steps frames, frames⟩) : m.Funded := by
  intro walk same
  cases walking.symm.trans same
  obtain ⟨_, body, found, path⟩ := coherent.walking _ walking
  rcases path with rfl | path
  · exact ⟨[], .nil, Nat.zero_le _⟩
  · obtain ⟨size, compiled⟩ := coherent.world.compiled
    obtain ⟨script, _, holds, small⟩ := Program.compile_body compiled found
    obtain ⟨rests, stands, _⟩ := path.stands holds
    exact ⟨rests, stands, path.cost_le holds small stands⟩

/-- A walk that a step leaves still has steps enough for the scripts of its frames. -/
theorem Funded.moved (funded : m.Funded) (moved : Moved m next) (coherent : m.Coherent) : next.Funded := by
  have coherent' := coherent.moved moved
  cases moved with
  | walk strode =>
    intro walk same
    cases same
    obtain ⟨rests, stands, enough⟩ := funded _ rfl
    -- every step makes what is left cheaper, by one at least
    obtain ⟨later, standing, _, cheaper⟩ := strode.plays stands
    dsimp only at enough standing ⊢
    rw [strode.program]
    exact ⟨later, standing, by omega⟩
  | start _ _ => exact entered_funded coherent' rfl
  | resume _ _ => exact entered_funded coherent' rfl
  | finish _ | park _ | halt _ | fail _ | pass _ | drop _ | create | created | step _ | stepped | collided
  | handle _ _ _ | handled _ | commit | transition _ | transitionFailed _ | request _ | requestFailed _
  | close =>
    intro walk same
    cases same

theorem steps_funded {w : World τ} (coherent : w.Coherent) {delta : τ} (inside : Steps (begin w delta) m) :
    m.Funded := by
  have first : (begin w delta).Funded := by
    intro walk same
    rw [begin_walking] at same
    cases same
  exact inside.keeps (begin_coherent coherent delta) first fun moved coherent funded =>
    funded.moved moved coherent

theorem runs_out (coherent : m.Coherent) (funded : m.Funded) (running : m.ending = none) {walk : Walking}
    (walking : m.walking = some walk) : ∃ after, RunsOut walk.invocation m after := by
  obtain ⟨v, steps, frames⟩ := walk
  -- each step takes one of those that are left
  induction steps using Nat.strongRecOn generalizing m frames with
  | ind steps ih =>
    obtain ⟨w, phase, walking, agenda, ahead, ending⟩ := m
    cases running
    cases walking
    obtain ⟨rests, stands, enough⟩ := funded _ rfl
    generalize stepped : step ⟨w, phase, some ⟨v, steps, frames⟩, agenda, ahead, none⟩ = result
    cases result with
    | none => cases stepped
    | some next =>
      have moved := step_moved stepped
      have coherent' := coherent.moved moved
      have funded' := funded.moved moved coherent
      cases moved with
      | walk strode =>
        obtain ⟨after, runs⟩ := ih _ (Nat.lt_succ_self _) coherent' funded' rfl _ rfl
        exact ⟨after, .more rfl rfl stepped runs⟩
      | finish spent =>
        refine ⟨_, .last rfl rfl stepped rfl ?_⟩
        rcases spent with out | atEnd
        · -- no step is left, so no script is left either
          dsimp only at out enough stands
          cases stands with
          | nil => exact .ended rfl
          | cons _ _ => simp only [Script.cost] at enough; omega
        · cases atEnd
          exact .ended rfl
      | @park _ w' _ _ _ _ left duration _ _ strode =>
        obtain ⟨entries, acted, _⟩ := strode.performs
        have journal : (w'.park v duration left).journal =
            .suspended v ⟨v.slot, left, duration, 0, w'.clock.tick, v.partner⟩ :: (entries ++ w.journal) := by
          rw [← acted]
          rfl
        exact ⟨_, .last rfl rfl stepped rfl (.waits journal)⟩
      | halt _ => exact ⟨_, .last rfl rfl stepped rfl (.halted rfl)⟩
      | fail _ => exact ⟨_, .last rfl rfl stepped rfl (.failed rfl)⟩

/-! ### what a walk comes to -/

/-- What has been played by a moment at which nothing is walked. -/
def played (m : Moment τ) : Played τ := ⟨m.world, m.ending.getD .finished⟩

/-- A step of a walk either is its last one, or leaves as much to come as there was before it. -/
private theorem step_landing (running : m.ending = none) {steps : Nat} {frames : List Frame}
    (walking : m.walking = some ⟨v, steps, frames⟩) (stepped : m.step = some next) :
    next.walking = none ∧ next.played = landing v (World.walkWithin v steps frames m.world) ∨
      ∃ fewer left, next.ending = none ∧ next.walking = some ⟨v, fewer, left⟩ ∧
        World.walkWithin v fewer left next.world = World.walkWithin v steps frames m.world := by
  obtain ⟨w, phase, walking, agenda, ahead, ending⟩ := m
  cases running
  cases walking
  -- one more step of the walk is what the stride says, and the rest is walked from there
  cases stepped
  cases steps with
  | zero => exact .inl ⟨rfl, rfl⟩
  | succ steps =>
    rw [World.walkWithin_succ]
    simp only [walkOn]
    generalize w.stride v frames = strode
    obtain ⟨w', stride⟩ := strode
    cases stride with
    | on left => exact .inr ⟨steps, left, rfl, rfl, rfl⟩
    | stop walk => cases walk <;> exact .inl ⟨rfl, rfl⟩

/-- A walk that has run out has come to what its steps come to. -/
theorem RunsOut.landing {after : Moment τ} (runs : RunsOut v m after) (running : m.ending = none) {steps : Nat}
    {frames : List Frame} (walking : m.walking = some ⟨v, steps, frames⟩) :
    after.played = Moment.landing v (World.walkWithin v steps frames m.world) := by
  induction runs generalizing steps frames with
  | last _ _ stepped idle _ =>
    rcases step_landing running walking stepped with ⟨_, played⟩ | ⟨_, _, _, goesOn, _⟩
    · exact played
    · cases idle.symm.trans goesOn
  | more _ _ stepped later ih =>
    rcases step_landing running walking stepped with ⟨idle, _⟩ | ⟨fewer, left, running', goesOn, same⟩
    · -- the walk goes on, so this was not its last step
      cases later with
      | last walks _ _ _ _ | more walks _ _ _ => cases idle.symm.trans walks
    · rw [ih running' goesOn, same]

/-- A walk that begins with what a wait keeps runs out, and then it has had the effect of the scripts that were
left. -/
theorem Coherent.runs_out_agreeing (coherent : m.Coherent) (funded : m.Funded) (running : m.ending = none)
    {frames : List Frame} {rests : List Script}
    (walking : m.walking = some ⟨v, m.world.program.steps frames, frames⟩)
    (leaves : m.world.program.Leaves v.object v.slot frames rests) :
    ∃ after, RunsOut v m after ∧ World.Agrees m.world.program v after.played (m.world.playAll v rests) := by
  obtain ⟨after, runs⟩ := runs_out coherent funded running walking
  obtain ⟨⟨body, found, path⟩, stands⟩ := leaves
  obtain ⟨_, compiled⟩ := coherent.world.compiled
  obtain ⟨script, _, holds, small⟩ := Program.compile_body compiled found
  refine ⟨after, runs, ?_⟩
  rw [runs.landing running walking]
  exact World.proceed_agrees found holds small path stands

end Moment

end Gameplay
