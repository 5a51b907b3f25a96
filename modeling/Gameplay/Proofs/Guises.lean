import Gameplay.Proofs.Instants
import Gameplay.Proofs.Keys

/-!
# Guises

Toasts, the score and sounds are for the host to look at, and the journal is for proofs. Worlds match if they
are the same but for these, and if their keyboards answer the same.

## Main result

`World.Matches.tick`: a tick of worlds that match plays alike, and they still match.

## Proof strategy

No operand, condition or phase reads what a guise is made of, so every function on worlds that a tick is made
of has one lemma here (`Matches.perform`, `Matches.stride`, `Matches.followRequest` and so on). A step from
one moment of a tick to the next is made of those (`Moment.Matches.step`), and a tick is made of its moments.
-/

namespace Gameplay

variable {τ : Type}

/-- What is left out when worlds are compared: what only the host looks at, what the last tick has noted,
and the order in which a keyboard keeps its keys. -/
structure Guise (τ : Type) where
  keys : Keyboard
  toasts : Toasts τ
  score : Float
  sounds : List String
  journal : List (Happening τ)

namespace World

/-- A world in another guise. -/
def inGuise (w : World τ) (g : Guise τ) : World τ :=
  { w with keys := g.keys, toasts := g.toasts, score := g.score, sounds := g.sounds, journal := g.journal }

/-- Worlds that are the same but for their guise. Their keyboards answer the same. -/
def Matches (w w' : World τ) : Prop := ∃ g : Guise τ, w.keys.Same g.keys ∧ w' = w.inGuise g

/-- Results that are the same but for worlds that match. -/
structure Alongside {α : Type} (r r' : World τ × α) : Prop where
  world : r.1.Matches r'.1
  result : r'.2 = r.2

variable {w w' : World τ}

theorem Alongside.parts {α : Type} {r r' : World τ × α} (both : Alongside r r') :
    ∃ w w' a, r = (w, a) ∧ r' = (w', a) ∧ w.Matches w' := by
  refine ⟨r.1, r'.1, r.2, rfl, ?_, both.world⟩
  rw [← both.result]

namespace Matches

/-- A world is in its own guise. -/
theorem refl (w : World τ) : w.Matches w := ⟨⟨_, _, _, _, _⟩, .refl _, rfl⟩

theorem program (same : w.Matches w') : w'.program = w.program := by
  obtain ⟨g, _, rfl⟩ := same
  rfl

theorem project (same : w.Matches w') : w'.project = w.project := by
  obtain ⟨g, _, rfl⟩ := same
  rfl

theorem room (same : w.Matches w') : w'.room = w.room := by
  obtain ⟨g, _, rfl⟩ := same
  rfl

theorem symm (same : w.Matches w') : w'.Matches w := by
  obtain ⟨g, keys, rfl⟩ := same
  exact ⟨⟨w.keys, w.toasts, w.score, w.sounds, w.journal⟩, keys.symm, rfl⟩

theorem trans {w'' : World τ} (same : w.Matches w') (further : w'.Matches w'') : w.Matches w'' := by
  obtain ⟨g, keys, rfl⟩ := same
  obtain ⟨g', keys', rfl⟩ := further
  exact ⟨g', keys.trans keys', rfl⟩

theorem settings (same : w.Matches w') : w'.settings = w.settings := by
  obtain ⟨g, _, rfl⟩ := same
  rfl

theorem status (same : w.Matches w') : w'.status = w.status := by
  obtain ⟨g, _, rfl⟩ := same
  rfl

theorem random (same : w.Matches w') : w'.random = w.random := by
  obtain ⟨g, _, rfl⟩ := same
  rfl

theorem instance? (same : w.Matches w') (id : Nat) : w'.instance? id = w.instance? id := by
  obtain ⟨g, _, rfl⟩ := same
  rfl

theorem scope? (same : w.Matches w') (actor : Nat) (s : Scope) : w'.scope? actor s = w.scope? actor s := by
  obtain ⟨g, _, rfl⟩ := same
  cases s <;> rfl

/-- Instances are the same in every guise, and are changed alike. -/
theorem modify (same : w.Matches w') (id : Nat) (f : Instance τ → Instance τ) :
    (w.modify id f).Matches (w'.modify id f) := by
  obtain ⟨g, keys, rfl⟩ := same
  exact ⟨g, keys, rfl⟩

theorem destroy (same : w.Matches w') (id : Nat) : (w.destroy id).Matches (w'.destroy id) := by
  obtain ⟨g, keys, rfl⟩ := same
  exact ⟨g, keys, rfl⟩

theorem note (same : w.Matches w') (h : Happening τ) : (w.note h).Matches (w'.note h) := by
  obtain ⟨g, keys, rfl⟩ := same
  exact ⟨{ g with journal := h :: g.journal }, keys, rfl⟩

theorem drawn (same : w.Matches w') (random : Random) :
    { w with random := random }.Matches { w' with random := random } := by
  obtain ⟨g, keys, rfl⟩ := same
  exact ⟨g, keys, rfl⟩

/-! ### operands -/

theorem lookup (same : w.Matches w') (actor : Nat) (r : VariableRef) :
    w'.lookup actor r = w.lookup actor r := by
  simp only [World.lookup, same.scope?]

/-- Operands have the same values in every guise: a key is held in both or in neither. -/
theorem resolve (same : w.Matches w') (actor : Nat) (o : Operand) :
    w'.resolve actor o = w.resolve actor o := by
  cases o with
  | literal value => rfl
  | «variable» r => simp only [World.resolve, same.lookup]
  | key name state =>
    -- a part of the guise is read, but only for an answer
    obtain ⟨g, keys, rfl⟩ := same
    exact congrArg (fun answer => Except.ok (Value.bool answer)) (keys name state)

theorem number (same : w.Matches w') (actor : Nat) (o : Operand) :
    w'.number actor o = w.number actor o := by
  simp only [World.number, same.resolve]

theorem point (same : w.Matches w') (actor : Nat) (x y : Operand) :
    w'.point actor x y = w.point actor x y := by
  simp only [World.point, same.number]

theorem holds (same : w.Matches w') (actor : Nat) (c : Condition) :
    w'.holds actor c = w.holds actor c := by
  simp only [World.holds, same.resolve]

/-! ### actions -/

theorem given {α : Type} {looked looked' : Except Dangling α} {go go' : α → World τ × Flow τ}
    (same : w.Matches w') (found : looked' = looked) (goes : ∀ a, Alongside (go a) (go' a)) :
    Alongside (w.given looked go) (w'.given looked' go') := by
  subst found
  cases looked' with
  | ok a => exact goes a
  | error cause => exact ⟨same, rfl⟩

/-- An assignment changes the same variables in every guise. -/
theorem assign (same : w.Matches w') (actor : Nat) (r : VariableRef) (value : Value) :
    Alongside (w.given (w.assign actor r value) (·, .next))
      (w'.given (w'.assign actor r value) (·, .next)) := by
  simp only [World.assign, same.scope?]
  obtain ⟨g, keys, rfl⟩ := same
  cases (w.scope? actor r.scope).bind (·.assign? r.id value) with
  | none => exact ⟨⟨g, keys, rfl⟩, rfl⟩
  | some vars => cases r.scope <;> exact ⟨⟨g, keys, rfl⟩, rfl⟩

theorem askForRoom (same : w.Matches w') (room : String) (transition : TransitionKind) :
    Alongside (w.askForRoom room transition) (w'.askForRoom room transition) := by
  simp only [World.askForRoom, same.project]
  split
  · exact ⟨same, rfl⟩
  · obtain ⟨g, keys, rfl⟩ := same
    exact ⟨⟨g, keys, rfl⟩, rfl⟩

variable [Scalar τ]

/-- An action does the same in worlds that match, and they still match. -/
theorem perform (same : w.Matches w') (v : Invocation) (action : Action) :
    Alongside (w.perform v action) (w'.perform v action) := by
  cases action with
  | move dx dy => exact same.given (same.point _ _ _) fun _ => ⟨same.modify _ _, rfl⟩
  | setVelocity vx vy => exact same.given (same.point _ _ _) fun _ => ⟨same.modify _ _, rfl⟩
  | rotate degrees => exact same.given (same.number _ _) fun _ => ⟨same.modify _ _, rfl⟩
  | moveToward x y speed =>
    exact same.given (same.point _ _ _) fun _ =>
      same.given (same.number _ _) fun _ => ⟨same.modify _ _, rfl⟩
  | teleport x y => exact same.given (same.point _ _ _) fun _ => ⟨same.modify _ _, rfl⟩
  | destroySelf => exact ⟨same.destroy _, rfl⟩
  | destroyOther =>
    simp only [World.perform]
    cases v.partner with
    | none => exact ⟨same, rfl⟩
    | some other =>
      simp only [same.instance?]
      split
      · exact ⟨same.destroy _, rfl⟩
      · exact ⟨same, rfl⟩
  | spawnObject objectId x y relative =>
    simp only [World.perform, same.program, same.instance?]
    split
    · exact ⟨same, rfl⟩
    · refine same.given (same.point _ _ _) fun _ => ?_
      obtain ⟨g, keys, rfl⟩ := same
      exact ⟨⟨g, keys, rfl⟩, rfl⟩
  -- the next three are for the host to see, and change the guise
  | changeScore delta =>
    refine same.given (same.number _ _) fun delta => ?_
    obtain ⟨g, keys, rfl⟩ := same
    exact ⟨⟨{ g with score := g.score + delta }, keys, rfl⟩, rfl⟩
  | message text duration =>
    refine same.given ?_ fun shown => ?_
    · cases duration with
      | some operand => exact same.number _ _
      | none =>
        obtain ⟨g, _, rfl⟩ := same
        rfl
    · obtain ⟨g, keys, rfl⟩ := same
      exact ⟨⟨{ g with toasts := g.toasts.enqueue text (Scalar.ofFloat shown) }, keys, rfl⟩, rfl⟩
  | playSound soundId =>
    obtain ⟨g, keys, rfl⟩ := same
    exact ⟨⟨{ g with sounds := soundId :: g.sounds }, keys, rfl⟩, rfl⟩
  | changeVariable target op value =>
    exact same.given (same.lookup _ _) fun _ => same.given (same.resolve _ _) fun _ => same.assign _ _ _
  | randomizeVariable target min max integer =>
    refine same.given (same.number _ _) fun min => same.given (same.number _ _) fun max => ?_
    rw [same.random]
    obtain ⟨drawn, random⟩ := w.random.draw min max integer
    exact (same.drawn random).assign _ _ _
  | copyVariable source target => exact same.given (same.lookup _ _) fun _ => same.assign _ _ _
  | goToRoom roomId transition => exact same.askForRoom _ _
  | restartRoom transition =>
    simp only [World.perform, same.room]
    cases w.room with
    | none => exact ⟨same, rfl⟩
    | some room => exact same.askForRoom _ _
  | wait duration => exact same.given (same.number _ _) fun _ => ⟨same, rfl⟩
  | clampToRoom | endGame _ | emitCustomEvent _ =>
    obtain ⟨g, keys, rfl⟩ := same
    exact ⟨⟨g, keys, rfl⟩, rfl⟩

/-- An action does the same in every guise. -/
theorem act (same : w.Matches w') (v : Invocation) (action : Action) :
    Alongside (w.act v action) (w'.act v action) := by
  obtain ⟨_, _, flow, done, done', performed⟩ := (same.perform v action).parts
  simp only [World.act, done, done']
  cases flow with
  | next | suspend _ | halt => exact ⟨performed.note _, rfl⟩
  | fail cause => exact ⟨performed, rfl⟩

/-- A step of a walk leads on to the same place in worlds that match. -/
theorem stride (same : w.Matches w') (v : Invocation) (frames : List Frame) :
    Alongside (w.stride v frames) (w'.stride v frames) := by
  cases frames with
  | nil => exact ⟨same, rfl⟩
  | cons frame outer =>
    simp only [World.stride, same.program, same.holds]
    split
    · exact ⟨same, rfl⟩
    next item _ =>
      split
      · exact ⟨same, rfl⟩
      next action _ =>
        obtain ⟨_, _, flow, done, done', acted⟩ := (same.act v action).parts
        simp only [done, done']
        cases flow <;> exact ⟨acted, rfl⟩
      next condition thens elses _ =>
        split <;> exact ⟨same, rfl⟩

/-! ### parts of a tick -/

theorem park (same : w.Matches w') (v : Invocation) (duration : τ) (frames : List Frame) :
    (w.park v duration frames).Matches (w'.park v duration frames) := by
  obtain ⟨g, keys, rfl⟩ := same
  exact note (modify ⟨g, keys, rfl⟩ _ _) _

omit [Scalar τ] in
theorem live (same : w.Matches w') : w'.live = w.live := by
  obtain ⟨g, _, rfl⟩ := same
  rfl

omit [Scalar τ] in
theorem isDestroyed (same : w.Matches w') (id : Nat) : w'.isDestroyed id = w.isDestroyed id := by
  simp only [World.isDestroyed, same.instance?]

omit [Scalar τ] in
theorem bars (same : w.Matches w') (v : Invocation) : w'.bars v = w.bars v := by
  obtain ⟨g, _, rfl⟩ := same
  rfl

omit [Scalar τ] in
theorem collisions (same : w.Matches w') : w'.collisions = w.collisions := by
  obtain ⟨g, _, rfl⟩ := same
  rfl

theorem applyVelocities (same : w.Matches w') : w.applyVelocities.Matches w'.applyVelocities := by
  obtain ⟨g, keys, rfl⟩ := same
  exact ⟨g, keys, rfl⟩

/-- The same waits end in every guise. -/
theorem takeDue (same : w.Matches w') (id : Nat) : Alongside (w.takeDue id) (w'.takeDue id) := by
  simp only [World.takeDue, same.instance?]
  split
  · exact ⟨same, rfl⟩
  · obtain ⟨g, keys, rfl⟩ := same
    exact ⟨⟨g, keys, rfl⟩, rfl⟩

omit [Scalar τ] in
theorem spawn (same : w.Matches w') (object : Nat) (position : Vec Float32) (origin : Origin) :
    (w.spawn object position origin).Matches (w'.spawn object position origin) := by
  simp only [World.spawn, same.program]
  split
  · exact same
  · obtain ⟨g, keys, rfl⟩ := same
    exact ⟨g, keys, rfl⟩

omit [Scalar τ] in
theorem spawnPlaced (same : w.Matches w') (placed : List (Placement × Nat)) :
    (w.spawnPlaced placed).Matches (w'.spawnPlaced placed) := by
  unfold World.spawnPlaced
  induction placed generalizing w w' with
  | nil => exact same
  | cons first placed ih => exact ih (same.spawn _ _ _)

omit [Scalar τ] in
private theorem spawnQueued (same : w.Matches w') (spawns : List Spawn) :
    (spawns.foldr (fun s w => w.spawn s.object s.position ⟨none, none⟩) w).Matches
      (spawns.foldr (fun s w => w.spawn s.object s.position ⟨none, none⟩) w') := by
  induction spawns with
  | nil => exact same
  | cons s spawns ih => exact ih.spawn _ _ _

omit [Scalar τ] in
/-- What is removed and what is spawned is the same in every guise. -/
theorem commit (same : w.Matches w') : w.commit.Matches w'.commit := by
  obtain ⟨g, keys, rfl⟩ := same
  refine spawnQueued ?_ w.pending.spawns
  exact ⟨g, keys, rfl⟩

end Matches

/-- Parts of a tick that end alike, in worlds that match. -/
structure PlaysAlike (p p' : Played τ) : Prop where
  world : p.world.Matches p'.world
  ending : p'.ending = p.ending

theorem PlaysAlike.andThen {p p' : Played τ} {next : World τ → Played τ} (alike : PlaysAlike p p')
    (goes : ∀ {w w' : World τ}, w.Matches w' → PlaysAlike (next w) (next w')) :
    PlaysAlike (p.andThen next) (p'.andThen next) := by
  unfold Played.andThen
  rw [alike.ending]
  split
  · exact goes alike.world
  · exact alike

namespace Matches

/-- A room is entered alike in every guise. -/
theorem enterRoom (same : w.Matches w') (room : String) :
    PlaysAlike (w.enterRoom room) (w'.enterRoom room) := by
  simp only [World.enterRoom, same.project, same.program]
  obtain ⟨g, keys, rfl⟩ := same
  split
  · exact ⟨⟨g, keys, rfl⟩, rfl⟩
  next found _ =>
    split
    · exact ⟨⟨g, keys, rfl⟩, rfl⟩
    next placed _ =>
      have entered : { w with room := some ⟨found.id, ⟨found.width, found.height⟩⟩ }.Matches
          { w.inGuise g with room := some ⟨found.id, ⟨found.width, found.height⟩⟩ } := ⟨g, keys, rfl⟩
      exact ⟨entered.spawnPlaced placed, rfl⟩

theorem leaveRoom (same : w.Matches w') : w.leaveRoom.Matches w'.leaveRoom := by
  obtain ⟨g, keys, rfl⟩ := same
  exact ⟨g, keys, rfl⟩

variable [Scalar τ]

theorem stepTransition (same : w.Matches w') : PlaysAlike w.stepTransition w'.stepTransition := by
  obtain ⟨g, keys, rfl⟩ := same
  have advanced : (w.inGuise g).transition.advance (w.inGuise g).clock.delta =
      w.transition.advance w.clock.delta := rfl
  unfold World.stepTransition
  rw [advanced]
  obtain ⟨transition, arrived⟩ := w.transition.advance w.clock.delta
  have timed : { w with transition := transition }.Matches { w.inGuise g with transition := transition } :=
    ⟨g, keys, rfl⟩
  cases arrived with
  | none => exact ⟨timed, rfl⟩
  | some room =>
    refine (timed.leaveRoom.enterRoom room).andThen fun entered => ⟨?_, rfl⟩
    obtain ⟨g, keys, rfl⟩ := entered
    exact ⟨g, keys, rfl⟩

theorem followRequest (same : w.Matches w') : PlaysAlike w.followRequest w'.followRequest := by
  obtain ⟨g, keys, rfl⟩ := same
  have pending : (w.inGuise g).pending = w.pending := rfl
  have transition : (w.inGuise g).transition = w.transition := rfl
  simp only [World.followRequest, pending, transition]
  split
  · exact ⟨⟨g, keys, rfl⟩, rfl⟩
  next request _ =>
    have answered : { w with pending := { w.pending with room := none } }.Matches
        { w.inGuise g with pending := { w.pending with room := none } } := ⟨g, keys, rfl⟩
    split
    · exact answered.leaveRoom.enterRoom request.room
    · split
      · exact ⟨answered, rfl⟩
      · exact ⟨⟨g, keys, rfl⟩, rfl⟩

end Matches

end World

/-! ### moments -/

namespace Moment

open World (Alongside)

/-- Moments of a tick that are the same but for worlds that match. -/
def Matches (m m' : Moment τ) : Prop := ∃ w', m.world.Matches w' ∧ m' = { m with world := w' }

variable [Scalar τ] {m m' : Moment τ}

theorem Matches.begin {w w' : World τ} (same : w.Matches w') (delta : τ) :
    (begin w delta).Matches (begin w' delta) := by
  obtain ⟨g, keys, rfl⟩ := same
  have opened : { w with clock := w.clock.advance delta, journal := [] }.Matches
      { w.inGuise g with clock := w.clock.advance delta, journal := [] } :=
    ⟨{ g with journal := [] }, keys, rfl⟩
  have transition : (w.inGuise g).transition = w.transition := rfl
  simp only [Moment.begin, transition]
  split <;> exact ⟨_, opened, rfl⟩

private theorem Matches.walkOn (same : m.Matches m') (walk : Walking) :
    (m.walkOn walk).Matches (m'.walkOn walk) := by
  obtain ⟨w', world, rfl⟩ := same
  simp only [Moment.walkOn]
  split
  · exact ⟨w', world, rfl⟩
  · obtain ⟨_, _, stride, strode, strode', moved⟩ := (world.stride walk.invocation walk.frames).parts
    simp only [strode, strode']
    cases stride with
    | on left => exact ⟨_, moved, rfl⟩
    | stop ended =>
      cases ended with
      | finished | halted | failed _ => exact ⟨_, moved, rfl⟩
      | suspended duration left => exact ⟨_, moved.park _ _ _, rfl⟩

omit [Scalar τ] in
private theorem Matches.enter (same : m.Matches m') (v : Invocation) (h : Happening τ)
    (frames : List Frame) : (m.enter v h frames).Matches (m'.enter v h frames) := by
  obtain ⟨w', world, rfl⟩ := same
  simp only [Moment.enter, world.program]
  exact ⟨_, world.note h, rfl⟩

omit [Scalar τ] in
private theorem Matches.take (same : m.Matches m') (turn : Turn τ) (rest : List (Turn τ)) :
    (m.take turn rest).Matches (m'.take turn rest) := by
  obtain ⟨w', world, rfl⟩ := same
  have left : Matches { m with agenda := rest } { m with world := w', agenda := rest } := ⟨w', world, rfl⟩
  cases turn with
  | start v =>
    simp only [Moment.take, world.bars, world.program]
    split
    · exact left
    · split
      · exact left
      · exact left.enter _ _ _
  | resume actor object wait =>
    simp only [Moment.take, world.isDestroyed, world.instance?]
    split
    · exact left
    · exact left.enter _ _ _

omit [Scalar τ] in
private theorem Matches.settle (same : m.Matches m') {p p' : Played τ} (alike : World.PlaysAlike p p')
    (phase : Phase) : (m.settle p phase).Matches (m'.settle p' phase) := by
  obtain ⟨w', world, rfl⟩ := same
  simp only [Moment.settle, alike.ending]
  split <;> exact ⟨_, alike.world, rfl⟩

/-- A phase goes on alike in every guise. -/
private theorem Matches.goOn (same : m.Matches m') : m.goOn.Matches m'.goOn := by
  obtain ⟨w', world, rfl⟩ := same
  obtain ⟨w, phase, walking, agenda, ahead, ending⟩ := m
  dsimp only at world
  cases phase with
  | create =>
    cases ahead with
    | nil =>
      simp only [Moment.goOn, world.live]
      exact ⟨w', world, rfl⟩
    | cons i is =>
      have made := world.modify i.id fun i => { i with fresh := false }
      simp only [Moment.goOn, invocations_program made.program]
      exact ⟨_, made, rfl⟩
  | step =>
    cases ahead with
    | nil =>
      have moved := world.applyVelocities
      simp only [Moment.goOn, moved.collisions]
      exact ⟨_, moved, rfl⟩
    | cons i is =>
      obtain ⟨_, _, due, taken, taken', aged⟩ := (world.takeDue i.id).parts
      simp only [Moment.goOn, taken, taken', invocations_program aged.program]
      exact ⟨_, aged, rfl⟩
  | collision =>
    simp only [Moment.goOn, world.settings]
    exact ⟨w', world, rfl⟩
  | custom rounds =>
    cases rounds with
    | zero => exact ⟨w', world, rfl⟩
    | succ rounds =>
      simp only [Moment.goOn]
      obtain ⟨g, keys, rfl⟩ := world
      have pending : (w.inGuise g).pending = w.pending := rfl
      rw [pending]
      split
      · exact ⟨_, ⟨g, keys, rfl⟩, rfl⟩
      · have taken : { w with pending := { w.pending with emits := [] } }.Matches
            { w.inGuise g with pending := { w.pending with emits := [] } } := ⟨g, keys, rfl⟩
        exact ⟨_, taken.note _, rfl⟩
  | commit => exact ⟨_, world.commit, rfl⟩
  | transition => exact .settle ⟨w', world, rfl⟩ world.stepTransition _
  | request => exact .settle ⟨w', world, rfl⟩ world.followRequest _
  | close =>
    -- toasts grow older in each world by itself, and keyboards forget the edges alike
    obtain ⟨g, keys, rfl⟩ := world
    let closed := { g with toasts := g.toasts.advance w.clock.delta, keys := g.keys.forgetEdges }
    exact ⟨_, ⟨closed, keys.forgetEdges, rfl⟩, rfl⟩

/-- Moments that match come to moments that match. -/
theorem Matches.step (same : m.Matches m') {next : Moment τ} (moved : m.step = some next) :
    ∃ next', m'.step = some next' ∧ next.Matches next' := by
  obtain ⟨w', world, rfl⟩ := same
  have same : m.Matches { m with world := w' } := ⟨w', world, rfl⟩
  simp only [Moment.step] at moved ⊢
  split at moved
  · cases moved
  · split at moved
    · cases moved
      exact ⟨_, rfl, same.walkOn _⟩
    · cases moved
      exact ⟨_, rfl, same.take _ _⟩
    · cases moved
      exact ⟨_, rfl, same.goOn⟩

/-- Steps from one of two matching moments are steps from the other. -/
theorem Matches.steps (same : m.Matches m') {last : Moment τ} (steps : Steps m last) :
    ∃ last', Steps m' last' ∧ last.Matches last' := by
  induction steps with
  | refl => exact ⟨m', .refl, same⟩
  | tail _ moved ih =>
    obtain ⟨_, before, same⟩ := ih
    obtain ⟨next', moved', same⟩ := same.step moved
    exact ⟨next', before.tail moved', same⟩

end Moment

/-- A tick of worlds that match plays alike. -/
theorem World.Matches.tick [Scalar τ] {w w' : World τ} (same : w.Matches w') (delta : τ) :
    World.PlaysAlike (w.tick delta) (w'.tick delta) := by
  obtain ⟨last, steps, world, ended⟩ := Moment.tick_passes w delta
  -- the moments of the other tick match these one by one, so the last of them has ended too
  obtain ⟨_, steps', ⟨w₁, alike, rfl⟩⟩ := (Moment.Matches.begin same delta).steps steps
  obtain ⟨world', ending⟩ := steps'.at_end ended
  constructor
  · rw [← world, ← world']
    exact alike
  · exact ending

end Gameplay
