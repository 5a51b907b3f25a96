import Mathlib.Algebra.Order.Floor.Ring
import Mathlib.Data.Rat.Floor
import Mathlib.Tactic.Ring
import Gameplay.GameLoop
import Gameplay.Proofs.ExactTime
import Gameplay.Proofs.Sounds

/-!
# The time of frames

A frame takes ticks of one length out of the time that is collected, and drops what it cannot pay for. On exact
times nothing is lost besides: what frames have fed is what their ticks have taken, what they have dropped and
what is still collected.

## Main result

`frames_account_for_time`: how many ticks each frame runs and what it leaves, and the balance of any number of
frames.

## Proof strategy

A tick takes its length off what is collected, and one off the whole ticks that fit in it (`runTicks_pays`). So
what the ticks leave is less than a tick unless there were as many as a frame may run.
-/

namespace Gameplay

/-- A time: an exact number of milliseconds, or one that is not finite. -/
inductive Lapse
  | exact (time : ℚ)
  | unfit
deriving DecidableEq

namespace Lapse

/-- The result of an operation; with an operand that is not finite it is not finite. -/
def lift (f : ℚ → ℚ → Lapse) : Lapse → Lapse → Lapse
  | exact a, exact b => f a b
  | _, _ => unfit

/-- What is not finite is not compared. -/
def related (r : ℚ → ℚ → Prop) : Lapse → Lapse → Prop
  | exact a, exact b => r a b
  | _, _ => False

instance {r : ℚ → ℚ → Prop} [DecidableRel r] : DecidableRel (related r)
  | exact a, exact b => inferInstanceAs (Decidable (r a b))
  | exact _, unfit | unfit, exact _ | unfit, unfit => inferInstanceAs (Decidable False)

def time : Lapse → ℚ
  | exact time => time
  | unfit => 0

instance : Scalar Lapse where
  zero := exact 0
  one := exact 1
  add := lift fun a b => exact (a + b)
  sub := lift fun a b => exact (a - b)
  mul := lift fun a b => exact (a * b)
  div := lift fun a b => if b = 0 then unfit else exact (a / b)
  neg := lift (fun a b => exact (a - b)) (exact 0)
  le := related (· ≤ ·)
  lt := related (· < ·)
  decLe := inferInstanceAs (DecidableRel (related (· ≤ ·)))
  decLt := inferInstanceAs (DecidableRel (related (· < ·)))
  sqrt
    | exact a => if a < 0 then unfit else exact (Rat.sqrt a)
    | unfit => unfit
  isFinite
    | exact _ => true
    | unfit => false
  ofNat n := exact n
  ofFloat x := if x.isFinite then exact (exactly x) else unfit
  toFloat32
    | exact a => (Binary.ofRat a).toFloat32
    | unfit => 0 / 0

/-- The time for which a frame counts, if it counts for at most `most`. -/
def within (most : ℚ) : Lapse → ℚ
  | exact time => max 0 (min time most)
  | unfit => 0

variable {a b : ℚ}

@[simp] theorem exact_le : exact a ≤ exact b ↔ a ≤ b := Iff.rfl

@[simp] theorem exact_lt : exact a < exact b ↔ a < b := Iff.rfl

@[simp] theorem exact_add : exact a + exact b = exact (a + b) := rfl

@[simp] theorem exact_sub : exact a - exact b = exact (a - b) := rfl

@[simp] theorem exact_zero : (0 : Lapse) = exact 0 := rfl

theorem within_nonneg (most : ℚ) (frame : Lapse) : 0 ≤ frame.within most := by
  cases frame with
  | exact time => exact le_max_left _ _
  | unfit => exact le_refl 0

/-- On exact times a frame counts for its own time, or for none if it is not finite or negative. -/
theorem frameTime_exact {most : ℚ} (positive : 0 ≤ most) (frame : Lapse) :
    Timestep.frameTime frame (exact most) = exact (frame.within most) := by
  cases frame with
  | unfit => rfl
  | exact frame =>
    have finite : Scalar.isFinite (exact frame) = true := rfl
    simp only [Timestep.frameTime, finite, if_true, exact_zero, exact_lt, within]
    split
    next negative => rw [min_eq_left (by linarith), max_eq_left negative.le]
    next forward =>
      split
      next long => rw [min_eq_right long.le, max_eq_right positive]
      next short => rw [min_eq_left (not_lt.mp short), max_eq_right (not_lt.mp forward)]

end Lapse

namespace GameLoop

/-! ### what a frame is about -/

section

variable {τ : Type} [Scalar τ]

/-- Ticks of one length that succeed and leave the run live, their number and their output: the sounds of each
tick in the order in which they were asked for, after those that had not been taken, and one drawing. -/
inductive Ticks (length : τ) : Game τ → Nat → List (Output τ) → Game τ → Prop
  | zero {g : Game τ} : Ticks length g 0 [] g
  | tick {g next last : Game τ} {count : Nat} {outputs : List (Output τ)} :
      g.Plays length → g.tick length = (next, none) → next.state.isLive = true →
      Ticks length next.takeSounds.1 count outputs last →
      Ticks length g (count + 1)
        ((g.world.sounds.reverse ++ next.world.soundRequests).map .play ++
          .draw next.takeSounds.1.snapshot :: outputs) last

/-- The ticks of a frame of a live run. -/
def frameTicks (loop : GameLoop τ) (frame : τ) : Ticked τ :=
  runTicks { loop with timestep := loop.timestep.collect frame loop.maxFrame } loop.maxTicks

/-- What a frame drops. If it has run as many ticks as it may and another one is owed, then this tick and what
is collected besides are dropped. -/
def dropped (loop : GameLoop τ) (frame : τ) : τ :=
  let ticked := loop.frameTicks frame
  match ticked.loop.timestep.pay? with
  | some paid =>
    if ticked.fault.isNone && ticked.count == ticked.loop.maxTicks then paid.collected + paid.tick else 0
  | none => 0

/-- In the frame every tick succeeds and leaves the run live. -/
structure Smooth (loop : GameLoop τ) (frame : τ) : Prop where
  live : loop.game.state.isLive = true
  unfailed : (loop.frame frame).fault = none
  goesOn : (loop.frame frame).loop.game.state.isLive = true

instance (loop : GameLoop τ) (frame : τ) : Decidable (loop.Smooth frame) :=
  decidable_of_iff (loop.game.state.isLive = true ∧ (loop.frame frame).fault.isNone = true ∧
      (loop.frame frame).loop.game.state.isLive = true)
    ⟨fun ⟨live, unfailed, goesOn⟩ => ⟨live, Option.isNone_iff_eq_none.mp unfailed, goesOn⟩,
      fun ⟨live, unfailed, goesOn⟩ => ⟨live, Option.isNone_iff_eq_none.mpr unfailed, goesOn⟩⟩

/-- Frames one after the other, each with the loop that runs it. -/
def frames (loop : GameLoop τ) : List τ → List (GameLoop τ × τ)
  | [] => []
  | frame :: rest => (loop, frame) :: frames (loop.frame frame).loop rest

def afterFrames (loop : GameLoop τ) (frames : List τ) : GameLoop τ :=
  frames.foldl (fun loop frame => (loop.frame frame).loop) loop

theorem afterFrames_cons (loop : GameLoop τ) (frame : τ) (rest : List τ) :
    loop.afterFrames (frame :: rest) = (loop.frame frame).loop.afterFrames rest := rfl

/-! ### ticks -/

variable {loop : GameLoop τ} {most : Nat}

/-- A frame changes nothing of what its ticks give but what is collected. -/
theorem frame_live (live : loop.game.state.isLive = true) (frame : τ) :
    let ticked := loop.frameTicks frame
    loop.frame frame = { ticked with loop := { ticked.loop with timestep :=
      if ticked.fault.isNone && ticked.count == ticked.loop.maxTicks && ticked.loop.timestep.pay?.isSome
      then ticked.loop.timestep.drop else ticked.loop.timestep } } := by
  unfold GameLoop.frame frameTicks
  simp only [live, Bool.not_true, Bool.false_eq_true, if_false]
  split <;> rfl

/-- Ticks leave a run live only if it was. -/
theorem runTicks_live (goesOn : (loop.runTicks most).loop.game.state.isLive = true) :
    loop.game.state.isLive = true := by
  cases most with
  | zero => exact goesOn
  | succ most =>
    by_contra dead
    have none : loop.runTicks (most + 1) = ⟨loop, 0, [], none⟩ := by simp [runTicks, dead]
    rw [none] at goesOn
    exact dead goesOn

/-- A tick before other ticks: its output is what the loop presents of it. -/
theorem Ticks.after {length : τ} {g next last : Game τ} {count : Nat} {outputs : List (Output τ)}
    (ticks : Ticks length next.takeSounds.1 count outputs last) (plays : g.Plays length)
    (ticked : g.tick length = (next, none)) (live : next.state.isLive = true) :
    Ticks length g (count + 1) ((present next).2 ++ outputs) last := by
  -- a tick without a fault gives the world that it has run
  have world : next.world = (g.world.tick length).world := by
    rw [plays.tick, Game.settle] at ticked
    split at ticked <;> cases ticked
    rfl
  have sounds : next.world.sounds.reverse = g.world.sounds.reverse ++ next.world.soundRequests := by
    rw [world]
    exact World.tick_sounds g.world length
  have all := Ticks.tick plays ticked live ticks
  rw [← sounds] at all
  rw [present, List.append_assoc]
  exact all

/-- Ticks of which none fails or ends the run: none is paid for, or the first one is run and then the others. -/
theorem runTicks_cases (unfailed : (loop.runTicks (most + 1)).fault = none)
    (goesOn : (loop.runTicks (most + 1)).loop.game.state.isLive = true) :
    (loop.timestep.pay? = none ∧ loop.runTicks (most + 1) = ⟨loop, 0, [], none⟩) ∨
    ∃ paid next, loop.timestep.pay? = some paid ∧ loop.game.tick paid.tick = (next, none) ∧
      next.state.isLive = true ∧
      let rest := runTicks { loop with game := next.takeSounds.1, timestep := paid } most
      loop.runTicks (most + 1) =
        { rest with count := rest.count + 1, outputs := (present next).2 ++ rest.outputs } := by
  have live := runTicks_live goesOn
  cases owed : loop.timestep.pay? with
  | none => exact .inl ⟨rfl, by simp [runTicks, live, owed]⟩
  | some paid =>
    generalize ticked : loop.game.tick paid.tick = result
    obtain ⟨next, _ | fault⟩ := result
    · let rest := runTicks { loop with game := next.takeSounds.1, timestep := paid } most
      have same : loop.runTicks (most + 1) =
          { rest with count := rest.count + 1, outputs := (present next).2 ++ rest.outputs } := by
        simp [runTicks, live, owed, ticked, present, rest]
      rw [same] at goesOn
      exact .inr ⟨paid, next, rfl, ticked, runTicks_live goesOn, same⟩
    · -- a tick that fails is the fault of them all
      simp [runTicks, live, owed, ticked] at unfailed

end

/-! ### one frame -/

/-- The account of a frame: `start` is collected before it, and it counts for `fed`. -/
structure Account (loop : GameLoop Lapse) (frame : Lapse) (length start fed : ℚ) : Prop where
  count : (loop.frame frame).count = min loop.maxTicks ⌊(start + fed) / length⌋₊
  ticks : Ticks (.exact length) loop.game (loop.frame frame).count (loop.frame frame).outputs
    (loop.frame frame).loop.game
  left : (loop.frame frame).loop.timestep =
    let rest := start + fed - (loop.frame frame).count * length
    ⟨.exact (if rest < length then rest else 0), .exact length⟩
  dropped : loop.dropped frame =
    let rest := start + fed - (loop.frame frame).count * length
    .exact (if rest < length then 0 else rest)
  full : loop.dropped frame ≠ .exact 0 → (loop.frame frame).count = loop.maxTicks
  maxFrame : (loop.frame frame).loop.maxFrame = loop.maxFrame
  maxTicks : (loop.frame frame).loop.maxTicks = loop.maxTicks

variable {length : ℚ} {loop : GameLoop Lapse}

private theorem whole_of_short {collected : ℚ} (positive : 0 < length) (short : collected < length) :
    ⌊collected / length⌋₊ = 0 :=
  Nat.floor_eq_zero.mpr ((div_lt_one positive).mpr short)

/-- A tick that is owed is one of the whole ticks that are. -/
private theorem whole_of_owed {collected : ℚ} (positive : 0 < length) (owed : length ≤ collected) :
    ⌊collected / length⌋₊ = ⌊(collected - length) / length⌋₊ + 1 := by
  have whole : 0 < ⌊collected / length⌋₊ := Nat.floor_pos.mpr ((one_le_div positive).mpr owed)
  rw [sub_div, div_self positive.ne', Nat.floor_sub_one]
  omega

private theorem pay?_exact (collected length : ℚ) :
    Timestep.pay? ⟨Lapse.exact collected, Lapse.exact length⟩ =
      if length ≤ collected then some ⟨.exact (collected - length), .exact length⟩ else none := rfl

private theorem plays_exact {g : Game Lapse} (positive : 0 < length) (live : g.state.isLive = true) :
    g.Plays (.exact length) :=
  ⟨rfl, not_lt.mpr positive.le, live⟩

/-- What ticks give that what is collected pays for: `collected` before them, and at most `most` of them. -/
structure Paid (loop : GameLoop Lapse) (most : Nat) (length collected : ℚ) (r : Ticked Lapse) : Prop where
  count : r.count = min most ⌊collected / length⌋₊
  ticks : Ticks (.exact length) loop.game r.count r.outputs r.loop.game
  left : r.loop.timestep = ⟨.exact (collected - r.count * length), .exact length⟩
  maxFrame : r.loop.maxFrame = loop.maxFrame
  maxTicks : r.loop.maxTicks = loop.maxTicks

private theorem unpaid {most : Nat} {collected : ℚ} (timestep : loop.timestep = ⟨.exact collected, .exact length⟩)
    (none : min most ⌊collected / length⌋₊ = 0) : Paid loop most length collected ⟨loop, 0, [], .none⟩ := by
  refine ⟨none.symm, .zero, ?_, rfl, rfl⟩
  simpa using timestep

/-- The ticks that are run are those that are owed, as far as they are allowed. -/
theorem runTicks_pays (positive : 0 < length) (most : Nat) {loop : GameLoop Lapse} {collected : ℚ}
    (timestep : loop.timestep = ⟨.exact collected, .exact length⟩)
    (unfailed : (loop.runTicks most).fault = none)
    (goesOn : (loop.runTicks most).loop.game.state.isLive = true) :
    Paid loop most length collected (loop.runTicks most) := by
  induction most generalizing loop collected with
  | zero => exact unpaid timestep (Nat.zero_min _)
  | succ most ih =>
    have live := runTicks_live goesOn
    rcases runTicks_cases unfailed goesOn with ⟨short, same⟩ | ⟨paid, next, pays, ticked, goesOn', same⟩
    · -- too little is collected for a tick
      rw [timestep, pay?_exact] at short
      have none : ⌊collected / length⌋₊ = 0 := whole_of_short positive (by simpa using short)
      rw [same]
      exact unpaid timestep (by rw [none, Nat.min_zero])
    · -- one tick is paid for
      rw [timestep, pay?_exact] at pays
      obtain ⟨owed, rfl⟩ : length ≤ collected ∧ paid = ⟨.exact (collected - length), .exact length⟩ := by
        simpa [eq_comm] using pays
      -- the others are paid for by what this tick leaves, and may be one fewer
      rw [same] at unfailed goesOn ⊢
      obtain ⟨count, ticks, left, maxFrame, maxTicks⟩ := ih rfl unfailed goesOn
      refine ⟨?_, ticks.after (plays_exact positive live) ticked goesOn', ?_, maxFrame, maxTicks⟩
      · dsimp only
        rw [count, whole_of_owed positive owed, Nat.succ_min_succ]
      · dsimp only
        rw [left]
        push_cast
        rw [add_mul, one_mul, sub_sub, add_comm length]

/-- What is left of a frame's time by as many ticks as fit in it, or by as many as may be run. -/
private theorem left_of_count {due : ℚ} {most count : Nat} (positive : 0 < length)
    (same : count = min most ⌊due / length⌋₊) :
    (due - count * length < length ∨ count = most) ∧ (0 ≤ due → 0 ≤ due - count * length) := by
  constructor
  · by_cases all : count = most
    · exact .inr all
    · -- as many as fit
      have whole : count = ⌊due / length⌋₊ := by omega
      have short : due / length < count + 1 := whole ▸ Nat.lt_floor_add_one _
      rw [div_lt_iff₀ positive] at short
      left
      linarith
  · intro forward
    have fits : (count : ℚ) ≤ due / length := by
      refine le_trans ?_ (Nat.floor_le (div_nonneg forward positive.le))
      exact_mod_cast (by omega : count ≤ ⌊due / length⌋₊)
    rw [le_div_iff₀ positive] at fits
    linarith

/-- The account of one frame. -/
theorem frame_account {most start : ℚ} {frame : Lapse} (positive : 0 < length) (longest : 0 ≤ most)
    (timestep : loop.timestep = ⟨.exact start, .exact length⟩) (maxFrame : loop.maxFrame = .exact most)
    (smooth : loop.Smooth frame) : loop.Account frame length start (frame.within most) := by
  obtain ⟨live, unfailed, goesOn⟩ := smooth
  have fed : loop.timestep.collect frame loop.maxFrame =
      ⟨.exact (start + frame.within most), .exact length⟩ := by
    rw [Timestep.collect, maxFrame, Lapse.frameTime_exact longest, timestep]
    rfl
  have same := frame_live live frame
  dsimp only at same
  rw [same] at unfailed goesOn
  have paid : Paid _ _ _ _ (loop.frameTicks frame) := runTicks_pays positive loop.maxTicks fed unfailed goesOn
  obtain ⟨count, ticks, left, maxFrame', maxTicks⟩ := paid
  change (loop.frameTicks frame).fault = none at unfailed
  -- less than a tick is left, or no more ticks may run
  have full := (left_of_count positive count).1
  generalize rest_eq : start + frame.within most - (loop.frameTicks frame).count * length = rest at left full
  -- time is dropped exactly if another tick is owed
  have dropped : loop.dropped frame = .exact (if rest < length then 0 else rest) := by
    by_cases short : rest < length
    · -- no further tick is owed
      simp [GameLoop.dropped, left, pay?_exact, short, not_le.mpr short]
    · have all := full.resolve_left short
      simp [GameLoop.dropped, left, pay?_exact, short, not_lt.mp short, unfailed, all, maxTicks]
  refine ⟨?_, ?_, ?_, ?_, fun some_dropped => ?_, ?_, ?_⟩
  · rw [same]
    exact count
  · rw [same]
    exact ticks
  · rw [same]
    dsimp only
    rw [rest_eq]
    by_cases short : rest < length
    · simp [left, pay?_exact, short, not_le.mpr short]
    · have all := full.resolve_left short
      simp [left, pay?_exact, short, not_lt.mp short, unfailed, all, maxTicks, Timestep.drop]
  · rw [same]
    dsimp only
    rw [rest_eq, dropped]
  · rw [same]
    refine full.resolve_left fun short => some_dropped ?_
    rw [dropped, if_pos short]
  · rw [same]
    exact maxFrame'
  · rw [same]
    exact maxTicks

/-- What a frame leaves is not negative and less than a tick, and its account balances. -/
theorem Account.balance {frame : Lapse} {start fed : ℚ} (account : loop.Account frame length start fed)
    (positive : 0 < length) (forward : 0 ≤ start + fed) :
    ∃ left, (loop.frame frame).loop.timestep = ⟨.exact left, .exact length⟩ ∧ 0 ≤ left ∧ left < length ∧
      start + fed = (loop.frame frame).count * length + (loop.dropped frame).time + left := by
  have rest := (left_of_count positive account.count).2 forward
  refine ⟨_, account.left, ?_⟩
  rw [account.dropped]
  dsimp only [Lapse.time]
  split
  next short => exact ⟨rest, short, by ring⟩
  next => exact ⟨le_refl 0, positive, by ring⟩

/-! ### frames one after the other -/

/-- The balance of frames: what was collected before them and what they feed is what their ticks take, what they
drop and what is collected after them. -/
def Balance (loop : GameLoop Lapse) (frames : List Lapse) (length most start left : ℚ) : Prop :=
  let run := loop.frames frames
  start + (frames.map (Lapse.within most)).sum =
    (run.map fun f => (f.1.frame f.2).count).sum * length + (run.map fun f => (f.1.dropped f.2).time).sum + left

/-- The account of a frame is added to the balance of those after it. -/
theorem Balance.cons {frame : Lapse} {frames : List Lapse} {most start between left : ℚ}
    (rest : (loop.frame frame).loop.Balance frames length most between left)
    (first : start + frame.within most =
      (loop.frame frame).count * length + (loop.dropped frame).time + between) :
    loop.Balance (frame :: frames) length most start left := by
  unfold Balance at rest ⊢
  simp only [GameLoop.frames, List.map_cons, List.sum_cons] at rest ⊢
  push_cast at rest ⊢
  linarith

/-- Let ticks have a positive length and frames count for at most `most`. Then in each of any frames in which
every tick succeeds and leaves the run live as many ticks run as fit in the time that is collected, or as many
as may. What they leave stays collected if it is less than a tick, and is dropped if not, which happens only
after as many ticks as may run. The output of the frame is that of its ticks, each with its sounds and then one
drawing. If less than a tick is collected to begin with, this is so after the frames, and no time is lost. -/
theorem frames_account_for_time (loop : GameLoop Lapse) (frames : List Lapse) (length most start : ℚ) :
    0 < length → 0 ≤ most → loop.timestep = ⟨.exact start, .exact length⟩ → loop.maxFrame = .exact most →
    (∀ f ∈ loop.frames frames, f.1.Smooth f.2) →
    (∀ f ∈ loop.frames frames, ∃ start, f.1.timestep.collected = .exact start ∧
      f.1.Account f.2 length start (f.2.within most)) ∧
    (0 ≤ start → start < length → ∃ left, (loop.afterFrames frames).timestep = ⟨.exact left, .exact length⟩ ∧
      0 ≤ left ∧ left < length ∧ loop.Balance frames length most start left) := by
  intro positive longest timestep maxFrame smooth
  induction frames generalizing loop start with
  | nil =>
    refine ⟨fun f listed => absurd listed List.not_mem_nil, fun forward short => ?_⟩
    refine ⟨start, timestep, forward, short, ?_⟩
    simp [Balance, GameLoop.frames]
  | cons frame frames ih =>
    have account := frame_account positive longest timestep maxFrame (smooth _ List.mem_cons_self)
    have later : ∀ f ∈ (loop.frame frame).loop.frames frames, f.1.Smooth f.2 := fun f listed =>
      smooth f (List.mem_cons_of_mem _ listed)
    have maxFrame' := account.maxFrame.trans maxFrame
    refine ⟨fun f listed => ?_, fun forward short => ?_⟩
    · rcases List.mem_cons.mp listed with rfl | listed
      · exact ⟨start, congrArg Timestep.collected timestep, account⟩
      · exact (ih _ _ account.left maxFrame' later).1 f listed
    · -- the first frame balances, and so do the others with what it leaves
      have counted := Lapse.within_nonneg most frame
      obtain ⟨between, same, nonnegative, less, first⟩ := account.balance positive (by linarith)
      obtain ⟨left, after, nonnegative', less', rest⟩ := (ih _ _ same maxFrame' later).2 nonnegative less
      rw [afterFrames_cons]
      exact ⟨left, after, nonnegative', less', rest.cons first⟩

/-- A clock strikes twice at every tick. -/
def clockTower : Project where
  version := 1
  declarations := []
  objects := [⟨"clock", "Clock", none, some 1, some 1, false, [],
    [⟨.step, .act (.playSound "ding") (.act (.playSound "dong") .done)⟩]⟩]
  rooms := [⟨"tower", "Tower", 10, 10, [⟨"top", "clock", 0, 0, none⟩]⟩]
  sprites := []
  sounds := []

/-- Ticks of 16 ms, at most three in a frame. -/
def towerLoop : GameLoop Lapse :=
  let settings := { Settings.default with tickMs := 16, maxFrameMs := 100, maxTicksPerFrame := 3 }
  .new ((Game.new settings).start clockTower "tower").1

/-- A frame of 1000 ms counts for 100 ms, of which three ticks take 48 ms; 62 ms are dropped with the 10 ms left
before. -/
theorem frames_account_for_time_tower :
    let frames : List Lapse := [.exact (116 / 3), .unfit, .exact (-1), .exact 1000, .exact (10 / 3)]
    (∀ f ∈ towerLoop.frames frames, f.1.Smooth f.2) ∧
    (towerLoop.frames frames).map (fun f => (f.1.frame f.2).count) = [2, 0, 0, 3, 0] ∧
    (towerLoop.frames frames).map (fun f => f.1.dropped f.2) =
      [.exact 0, .exact 0, .exact 0, .exact (176 / 3), .exact 0] ∧
    (towerLoop.afterFrames frames).timestep = ⟨.exact (10 / 3), .exact 16⟩ ∧
    towerLoop.Balance frames 16 100 0 (10 / 3) := by
  intro frames
  have smooth : ∀ f ∈ towerLoop.frames frames, f.1.Smooth f.2 := by decide +kernel
  have counts : (towerLoop.frames frames).map (fun f => (f.1.frame f.2).count) = [2, 0, 0, 3, 0] := by
    decide +kernel
  have drops : (towerLoop.frames frames).map (fun f => f.1.dropped f.2) =
      [.exact 0, .exact 0, .exact 0, .exact (176 / 3), .exact 0] := by decide +kernel
  have kept : (towerLoop.afterFrames frames).timestep = ⟨.exact (10 / 3), .exact 16⟩ := by decide +kernel
  obtain ⟨_, balance⟩ := frames_account_for_time towerLoop frames 16 100 0 (by norm_num) (by norm_num)
    (by decide +kernel) (by decide +kernel) smooth
  obtain ⟨left, timestep, _, _, balance⟩ := balance (le_refl 0) (by norm_num)
  cases kept.symm.trans timestep
  exact ⟨smooth, counts, drops, kept, balance⟩

end GameLoop

end Gameplay
