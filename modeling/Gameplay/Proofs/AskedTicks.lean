import Gameplay.Player
import Gameplay.Proofs.Calls
import Gameplay.Proofs.Doubles
import Gameplay.Proofs.FrameTime

/-!
# Ticks that are asked for

The player asks its loop for frames of one tick's length, until as many ticks have run as it was told. A frame
counts for a limited time only, and the player takes a frame without a tick for the end.

## Main result

`playRoom_asks_for_ticks`: if a tick takes a finite time for which a frame may count, then all ticks run that
the player was told, or those up to the one that ends the run or fails. Otherwise none runs.
-/

namespace Gameplay

variable {τ : Type}

/-! ### time for one tick -/

namespace Timestep

/-- A frame of one tick's length pays for one tick, and nothing is left. -/
structure PaysEach [Scalar τ] (t : Timestep τ) (maxFrame : τ) : Prop where
  paid : (t.collect t.tick maxFrame).pay? = some t
  spent : t.pay? = none

variable {tick maxFrame : Float}

/-- A finite frame counts for as long as it may. -/
private theorem frameTime_positive (positive : 0 < tick) (finite : tick.isFinite = true) :
    frameTime tick maxFrame = if maxFrame < tick then maxFrame else tick := by
  have finite : Scalar.isFinite tick = true := finite
  unfold frameTime
  rw [if_pos finite]
  split
  next negative => exact absurd negative (Double.not_lt_zero positive)
  next => rfl

private theorem collect_new {counted : Float} (frame : frameTime tick maxFrame = counted)
    (positive : 0 < counted) : (new tick).collect tick maxFrame = ⟨counted, tick⟩ := by
  have sum : 0 + counted = counted := Double.zero_add positive
  rw [collect, frame]
  exact congrArg (Timestep.mk · tick) sum

theorem new_paysEach (positive : 0 < tick) (finite : tick.isFinite = true) (fits : tick ≤ maxFrame)
    (longest : 0 < maxFrame) : (new tick).PaysEach maxFrame := by
  have frame : frameTime tick maxFrame = tick :=
    (frameTime_positive positive finite).trans (if_neg ((Double.le_iff_not_lt positive longest).mp fits))
  have owed : tick ≤ tick := (Double.le_iff_not_lt positive positive).mpr (Double.lt_irrefl positive)
  have rest : tick - tick = 0 := Double.sub_self finite
  have collected : (new tick).collect (new tick).tick maxFrame = ⟨tick, tick⟩ := collect_new frame positive
  constructor
  · rw [collected]
    exact (if_pos owed).trans (congrArg (fun rest : Float => some (Timestep.mk rest tick)) rest)
  · exact if_neg (Double.not_le_zero positive)

/-- Where a tick does not fit into a frame, a frame of one tick's length pays for none. -/
theorem new_pays_none (positive : 0 < tick) (longest : 0 < maxFrame)
    (unfit : ¬ (tick.isFinite = true ∧ tick ≤ maxFrame)) :
    ((new tick).collect tick maxFrame).pay? = none := by
  by_cases finite : Scalar.isFinite tick = true
  · -- the frame counts for less than a tick
    have short : ¬ tick ≤ maxFrame := fun fits => unfit ⟨finite, fits⟩
    have less : maxFrame < tick := by
      rw [Double.le_iff_not_lt positive longest] at short
      exact Decidable.not_not.mp short
    have frame : frameTime tick maxFrame = maxFrame :=
      (frameTime_positive positive finite).trans (if_pos less)
    rw [collect_new frame longest]
    exact if_neg short
  · -- the frame does not count
    have frame : frameTime tick maxFrame = 0 := if_neg finite
    have nothing : (0 : Float) + 0 = 0 := by decide +kernel
    have collected : (new tick).collect tick maxFrame = ⟨0, tick⟩ := by
      rw [collect, frame]
      exact congrArg (Timestep.mk · tick) nothing
    rw [collected]
    exact if_neg (Double.not_le_zero positive)

end Timestep

/-! ### settings -/

/-- Settings with which a game can be timed. -/
structure Settings.Usable (s : Settings) : Prop where
  tick : 0 < s.tickMs
  maxFrame : 0 < s.maxFrameMs
  maxTicks : 0 < s.maxTicksPerFrame.toNat

namespace Settings

theorem default_usable : default.Usable :=
  ⟨by decide +kernel, by decide +kernel, by decide⟩

theorem positive?_getD {ini : List IniEntry} {inSection key : String} {otherwise : Float}
    (positive : 0 < otherwise) : 0 < (positive? ini inSection key).getD otherwise := by
  cases found : positive? ini inSection key with
  | none => exact positive
  | some x =>
    simp only [positive?, Option.filter_eq_some_iff, decide_eq_true_eq] at found
    exact found.2

theorem apply_usable {s : Settings} (usable : s.Usable) (ini : List IniEntry) : (s.apply ini).Usable := by
  refine ⟨positive?_getD usable.tick, positive?_getD usable.maxFrame, ?_⟩
  unfold apply
  dsimp only
  split
  next n _ =>
    split
    · exact Nat.zero_lt_one
    next other => exact Nat.pos_of_ne_zero fun zero => other (UInt32.toNat_inj.mp zero)
  next => exact usable.maxTicks

/-- Whatever settings are read from a text, a game can be timed with them. -/
theorem Usable.load {text : String} {s t : Settings} (usable : s.Usable) (loaded : s.load text = .ok t) :
    t.Usable := by
  unfold Settings.load at loaded
  cases read : Ini.read text with
  | error e =>
    rw [read] at loaded
    cases loaded
  | ok ini =>
    rw [read] at loaded
    cases loaded
    exact apply_usable usable ini

/-- Whatever text is read over the default settings, a game can be timed with them. -/
theorem load_usable {text : String} {s : Settings} (loaded : default.load text = .ok s) : s.Usable :=
  default_usable.load loaded

end Settings

namespace GameLoop

variable [Scalar τ]

/-! ### frames of one tick -/

theorem runTicks_unpaid {loop : GameLoop τ} (unpaid : loop.timestep.pay? = none) (most : Nat) :
    loop.runTicks most = ⟨loop, 0, [], none⟩ := by
  cases most with
  | zero => rfl
  | succ most =>
    simp only [runTicks, unpaid]
    split <;> rfl

/-- A frame that pays for one tick runs it. -/
theorem frame_one {loop : GameLoop τ} (live : loop.game.state.isLive = true) (allowed : 0 < loop.maxTicks)
    (pays : loop.timestep.PaysEach loop.maxFrame) :
    loop.frame loop.timestep.tick = match loop.game.tick loop.timestep.tick with
      | (game, some fault) => ⟨{ loop with game := game }, 0, [], some fault⟩
      | (game, none) => ⟨{ loop with game := (present game).1 }, 1, (present game).2, none⟩ := by
  obtain ⟨game, timestep, maxFrame, maxTicks⟩ := loop
  cases maxTicks with
  | zero => exact absurd allowed (Nat.lt_irrefl 0)
  | succ most =>
    dsimp only at live pays ⊢
    have running : (!game.state.isLive) = false := by rw [live, Bool.not_true]
    simp only [frame, running, Bool.false_eq_true, if_false, runTicks, pays.paid]
    cases game.tick timestep.tick with
    | mk next fault =>
      cases fault with
      | some fault => rfl
      | none =>
        -- nothing is left for another tick, so no time is dropped either
        have rest : runTicks ⟨(present next).1, timestep, maxFrame, most + 1⟩ most = ⟨_, 0, [], none⟩ :=
          runTicks_unpaid pays.spent most
        simp only [rest, pays.spent, Option.isSome_none, Bool.and_false, List.append_nil]
        rfl

/-- A frame that pays for no tick runs none. -/
theorem frame_none {loop : GameLoop τ} (live : loop.game.state.isLive = true)
    (short : (loop.timestep.collect loop.timestep.tick loop.maxFrame).pay? = none) :
    loop.frame loop.timestep.tick =
      ⟨{ loop with timestep := loop.timestep.collect loop.timestep.tick loop.maxFrame }, 0, [], none⟩ := by
  unfold frame
  dsimp only
  rw [runTicks_unpaid short]
  simp [live, short]

/-! ### ticks one after the other -/

/-- What becomes of a number of ticks that are asked for, from a live run on: how many succeed, the game after
them, and the fault of one that fails. All of them succeed, or those before the one that ends the run or
fails. -/
inductive Runs (length : τ) (asked : Nat) (g : Game τ) : Nat → Game τ → Option (Fault τ) → Prop
  | all {outputs : List (Output τ)} {last : Game τ} : Ticks length g asked outputs last →
      Runs length asked g asked last none
  | ended {count : Nat} {outputs : List (Output τ)} {before next : Game τ} : count < asked →
      Ticks length g count outputs before → before.Plays length → before.tick length = (next, none) →
      next.state.isLive = false → Runs length asked g (count + 1) next.takeSounds.1 none
  | failed {count : Nat} {outputs : List (Output τ)} {before next : Game τ} {fault : Fault τ} :
      count < asked → Ticks length g count outputs before → before.Plays length →
      before.tick length = (next, some fault) → Runs length asked g count next (some fault)

variable {length : τ} {asked count : Nat} {g next last : Game τ} {fault : Option (Fault τ)}

/-- A tick before others that are asked for. -/
theorem Runs.after (runs : Runs length asked next.takeSounds.1 count last fault) (plays : g.Plays length)
    (ticked : g.tick length = (next, none)) (live : next.state.isLive = true) :
    Runs length (asked + 1) g (count + 1) last fault := by
  cases runs with
  | all ticks => exact .all (.tick plays ticked live ticks)
  | ended fewer ticks playsLast ends dead =>
    exact .ended (Nat.succ_lt_succ fewer) (.tick plays ticked live ticks) playsLast ends dead
  | failed fewer ticks playsLast fails =>
    exact .failed (Nat.succ_lt_succ fewer) (.tick plays ticked live ticks) playsLast fails

/-- If any ticks are asked for, one succeeds or fails. -/
theorem Runs.first (runs : Runs length asked g count last fault) (some : 0 < asked) :
    0 < count ∨ fault ≠ none := by
  cases runs with
  | all _ => exact .inl some
  | ended _ _ _ _ _ => exact .inl (Nat.succ_pos _)
  | failed _ _ _ _ => exact .inr nofun

end GameLoop

namespace Player

open GameLoop (Runs)

variable {tickMs : Float} {ticks frames : Nat} {s : Session}

theorem playFrames_enough (enough : ticks ≤ s.ran) : playFrames tickMs ticks frames s = (s, none) := by
  cases frames with
  | zero => rfl
  | succ frames => simp [playFrames, enough]

theorem playFrames_over (dead : s.loop.game.state.isLive = false) :
    playFrames tickMs ticks frames s = (s, none) := by
  cases frames with
  | zero => rfl
  | succ frames => simp [playFrames, dead]

/-- What a session becomes by a frame that has run a tick. -/
def Session.advanced (s : Session) (game : Game Float) (outputs : List (Output Float)) : Session :=
  ⟨{ s.loop with game := game }, s.ran + 1, (logOutputs s.shown outputs).2,
    s.messages ++ (logOutputs s.shown outputs).1⟩

/-- A frame that pays for one tick runs it, and the next frames follow if it does not fail. -/
theorem playFrames_tick (more : s.ran < ticks) (live : s.loop.game.state.isLive = true)
    (allowed : 0 < s.loop.maxTicks) (pays : s.loop.timestep.PaysEach s.loop.maxFrame) :
    playFrames s.loop.timestep.tick ticks (frames + 1) s =
      match s.loop.game.tick s.loop.timestep.tick with
      | (next, some fault) => ({ s with loop := { s.loop with game := next } }, some fault)
      | (next, none) => playFrames s.loop.timestep.tick ticks frames
          (s.advanced (GameLoop.present next).1 (GameLoop.present next).2) := by
  -- the loop goes on, since ticks are left and the run is live
  have running : (decide (ticks ≤ s.ran) || !s.loop.game.state.isLive) = false := by
    rw [live, decide_eq_false (Nat.not_le.mpr more)]
    rfl
  simp only [playFrames, running, Bool.false_eq_true, if_false, GameLoop.frame_one live allowed pays]
  cases s.loop.game.tick s.loop.timestep.tick with
  | mk next fault =>
    cases fault with
    | none => rfl
    | some fault => simp [logOutputs]

/-- If a frame pays for one tick, the ticks run that are still asked for. -/
theorem playFrames_runs {asked : Nat} (left : ticks = s.ran + asked) (enough : asked ≤ frames)
    (fit : ∀ g : Game Float, g.state.isLive = true → g.Plays s.loop.timestep.tick)
    (pays : s.loop.timestep.PaysEach s.loop.maxFrame) (allowed : 0 < s.loop.maxTicks)
    (live : s.loop.game.state.isLive = true) :
    ∃ count, (playFrames s.loop.timestep.tick ticks frames s).1.ran = s.ran + count ∧
      Runs s.loop.timestep.tick asked s.loop.game count
        (playFrames s.loop.timestep.tick ticks frames s).1.loop.game
        (playFrames s.loop.timestep.tick ticks frames s).2 := by
  -- a frame that pays for one tick leaves the loop's time as it was, so the next one does too
  induction asked generalizing frames s with
  | zero =>
    rw [playFrames_enough (Nat.le_of_eq left)]
    exact ⟨0, rfl, .all .zero⟩
  | succ asked ih =>
    obtain ⟨frames, rfl⟩ : ∃ n, frames = n + 1 := ⟨frames - 1, by omega⟩
    rw [playFrames_tick (by omega) live allowed pays]
    have plays := fit _ live
    cases ticked : s.loop.game.tick s.loop.timestep.tick with
    | mk next fault =>
      cases fault with
      | some fault => exact ⟨0, rfl, .failed (Nat.succ_pos asked) .zero plays ticked⟩
      | none =>
        dsimp only
        cases goesOn : next.state.isLive with
        | true =>
          obtain ⟨count, ran, runs⟩ := ih (s := s.advanced (GameLoop.present next).1 (GameLoop.present next).2)
            (left.trans (by simp only [Session.advanced]; omega)) (Nat.le_of_succ_le_succ enough) fit pays
            allowed goesOn
          exact ⟨count + 1, ran.trans (by simp only [Session.advanced]; omega),
            runs.after plays ticked goesOn⟩
        | false =>
          rw [playFrames_over goesOn]
          exact ⟨1, rfl, .ended (Nat.succ_pos asked) .zero plays ticked goesOn⟩

/-- If a frame pays for no tick, none runs. -/
theorem playFrames_none (ticks frames : Nat) (ran : s.ran = 0) (live : s.loop.game.state.isLive = true)
    (short : (s.loop.timestep.collect s.loop.timestep.tick s.loop.maxFrame).pay? = none) :
    (playFrames s.loop.timestep.tick ticks frames s).1.ran = 0 ∧
      (playFrames s.loop.timestep.tick ticks frames s).1.loop.game = s.loop.game ∧
      (playFrames s.loop.timestep.tick ticks frames s).2 = none := by
  cases frames with
  | zero => exact ⟨ran, rfl, rfl⟩
  | succ frames =>
    simp only [playFrames, GameLoop.frame_none live short, if_true]
    split <;> exact ⟨ran, rfl, rfl⟩

theorem held_same (keys : List String) (g : Game Float) :
    (keys.foldl Game.press g).world.settings = g.world.settings ∧
      (keys.foldl Game.press g).state = g.state := by
  induction keys generalizing g with
  | nil => exact ⟨rfl, rfl⟩
  | cons key keys ih => exact ih (g.press key)

/-- What a session that has come to its end reports. -/
def report (options : Options) : Session × Option (Fault Float) → Report
  | (session, some fault) => stopped session.messages fault
  | (session, none) =>
    let snapshot := session.loop.game.snapshot
    let farewell := (snapshot.ended.map ("Game over: " ++ ·)).toList
    let messages := session.messages ++ summary session.ran snapshot :: farewell
    ⟨0, messages.map (⟨.info, ·⟩), none, if options.dump then some snapshot else none⟩

theorem playRoom_eq {s : Settings} {p : Project} {room : String} {game : Game Float}
    (started : (Game.new s).start p room = (game, none)) (options : Options) :
    let held := options.hold.foldl Game.press game
    playRoom options s p room =
      report options (playFrames s.tickMs options.ticks options.ticks ⟨.new held, 0, none, []⟩) := by
  intro held
  simp only [playRoom, started]
  generalize playFrames s.tickMs options.ticks options.ticks _ = run
  obtain ⟨session, _ | fault⟩ := run <;> rfl

/-- The player with any settings that are read over the default ones, a project that starts, and any number
of ticks to run. If a tick takes a finite time for which a frame may count, then all of these ticks run, or
those up to the one that ends the run or fails. If not, none of them runs, and the run is left live. -/
theorem playRoom_asks_for_ticks {text : String} {s : Settings}
    (loaded : Settings.default.load text = .ok s) {p : Project} {room : String} {game : Game Float}
    (started : (Game.new s).start p room = (game, none)) (options : Options) :
    let held := options.hold.foldl Game.press game
    let run := playFrames s.tickMs options.ticks options.ticks ⟨.new held, 0, none, []⟩
    playRoom options s p room = report options run ∧
      (s.tickMs.isFinite = true ∧ s.tickMs ≤ s.maxFrameMs →
        Runs s.tickMs options.ticks held run.1.ran run.1.loop.game run.2) ∧
      (¬ (s.tickMs.isFinite = true ∧ s.tickMs ≤ s.maxFrameMs) →
        run.1.ran = 0 ∧ run.1.loop.game = held ∧ run.2 = none ∧ held.state.isLive = true) := by
  intro held run
  have usable := Settings.load_usable loaded
  have first : ((Game.new s).start p room).1 = game := congrArg Prod.fst started
  -- keys that are held change neither the settings nor the state of the run
  have settings : held.world.settings = s := by
    have same := Game.after_settings s [(.start p room : HostCall Float)]
    rw [(held_same options.hold game).1, ← first]
    exact same
  have live : held.state.isLive = true := by
    obtain ⟨program, w, _, _, world⟩ := Game.start_enters (congrArg Prod.snd started)
    rw [(held_same options.hold game).2, ← first, Game.state, world]
    rfl
  have loop : GameLoop.new held = ⟨held, .new s.tickMs, s.maxFrameMs, s.maxTicksPerFrame.toNat⟩ := by
    rw [GameLoop.new, settings]
    rfl
  refine ⟨playRoom_eq started options, ?_, fun unfit => ?_⟩
  · rintro ⟨finite, fits⟩
    have pays := Timestep.new_paysEach usable.tick finite fits usable.maxFrame
    have fit (g : Game Float) (live : g.state.isLive = true) : g.Plays s.tickMs :=
      ⟨finite, Double.not_lt_zero usable.tick, live⟩
    obtain ⟨count, ran, runs⟩ := playFrames_runs (s := ⟨.new held, 0, none, []⟩)
      (Nat.zero_add options.ticks).symm (Nat.le_refl options.ticks) (by rw [loop]; exact fit)
      (by rw [loop]; exact pays) (by rw [loop]; exact usable.maxTicks) live
    rw [Nat.zero_add] at ran
    rw [← ran] at runs
    rw [loop] at runs
    simp only [run, loop]
    exact runs
  -- a frame pays for no tick, so the first one is the last
  · have short := Timestep.new_pays_none usable.tick usable.maxFrame unfit
    obtain ⟨ran, game, fault⟩ := playFrames_none (s := ⟨.new held, 0, none, []⟩) options.ticks options.ticks
      rfl live (by rw [loop]; exact short)
    simp only [run, loop] at ran game fault ⊢
    exact ⟨ran, game, fault, live⟩

/-- A cat that leaves as soon as a key is held. -/
def leaver : Project where
  version := 1
  declarations := []
  objects := [⟨"cat", "Cat", none, some 1, some 1, false, [],
    [⟨.step, .branch ⟨.key "x" .held, .eq, .literal (.bool true)⟩
      (.act (.endGame "bye") .done) .done .done⟩]⟩]
  rooms := [⟨"room", "Room", 10, 10, [⟨"mat", "cat", 0, 0, none⟩]⟩]
  sprites := []
  sounds := []

private theorem leaver_starts {s : Settings}
    (succeeds : ((Game.new s : Game Float).start leaver "room").2 = none) :
    (Game.new s : Game Float).start leaver "room" = (((Game.new s).start leaver "room").1, none) :=
  Prod.ext rfl succeeds

/-- With ticks of 20 ms in frames of 20 ms, of three ticks the first one ends the run. -/
theorem playRoom_asks_for_ticks_leaver :
    let s : Settings := { Settings.default with tickMs := 20, maxFrameMs := 20 }
    let options : Options := ⟨"cat.json", none, 3, none, ["x"], false⟩
    let held := Game.press ((Game.new s).start leaver "room").1 "x"
    let run := playFrames s.tickMs 3 3 ⟨.new held, 0, none, []⟩
    Settings.default.load "[loop]\ntick_ms = 20\nmax_frame_ms = 20" = .ok s ∧
      playRoom options s leaver "room" = report options run ∧
      run.1.ran = 1 ∧ Runs s.tickMs 3 held run.1.ran run.1.loop.game run.2 := by
  intro s options held run
  have loaded : Settings.default.load "[loop]\ntick_ms = 20\nmax_frame_ms = 20" = .ok s := by decide +kernel
  have started := leaver_starts (s := s) (by decide +kernel)
  have ran : run.1.ran = 1 := by decide +kernel
  obtain ⟨reported, runs, _⟩ := playRoom_asks_for_ticks loaded started options
  exact ⟨loaded, reported, ran, runs ⟨by decide +kernel, by decide +kernel⟩⟩

/-- It is not so that the ticks run that the player was told, up to one that ends the run or fails: of ticks of
300 ms none runs, as a frame counts for 250 ms. -/
theorem playRoom_runs_asked_refuted :
    ¬ ∀ (text : String) (s : Settings) (p : Project) (room : String) (game : Game Float) (options : Options),
      Settings.default.load text = .ok s → (Game.new s).start p room = (game, none) →
      let held := options.hold.foldl Game.press game
      let run := playFrames s.tickMs options.ticks options.ticks ⟨.new held, 0, none, []⟩
      Runs s.tickMs options.ticks held run.1.ran run.1.loop.game run.2 := by
  intro asked
  have loaded : Settings.default.load "[loop]\ntick_ms = 300" =
      .ok { Settings.default with tickMs := 300 } := by
    decide +kernel
  have started := leaver_starts (s := { Settings.default with tickMs := 300 }) (by decide +kernel)
  -- of three ticks that are asked for none is run, and none fails
  have runs : Runs (300 : Float) 3 _ _ _ _ :=
    asked _ _ leaver "room" _ ⟨"cat.json", none, 3, none, [], false⟩ loaded started
  rcases runs.first (by decide) with ran | failed
  · exact absurd ran (by decide +kernel)
  · exact failed (by decide +kernel)

end Player

end Gameplay
