import Gameplay.Proofs.CustomEvents
import Gameplay.Proofs.Dispatch
import Gameplay.Proofs.SavedSettings

/-!
# Limits

Settings limit the ticks of a frame and the rounds of custom events in a tick. The limits are words of 32 bits, but
the numbers that are read for them have 64, of which the low half is kept.

## Main results

`set?_written`, `load_limit`: every number can be set, and its low half is the limit.
`Plays.handles`: custom events are left over only if a tick has had all its rounds.
`greater_limit`: up to the greatest word of 32 bits a greater number gives no smaller limit. Custom events are handled
unless the low half of the number is zero.

## Proof strategy

A tick has its rounds one at a time and stops when no custom event is queued, so at every moment it has had all its
rounds but those that are left (`Moved.spends`, `steps_spend`). Together with what is known of the queue
(`steps_account`) this tells what a tick with rounds to spare has handled.
-/

namespace Gameplay

/-! ### texts that set limits -/

inductive Limit
  /-- The ticks of a frame. -/
  | ticks
  /-- The rounds of custom events in a tick. -/
  | rounds
deriving DecidableEq

namespace Limit

def title : Limit → String
  | ticks => "loop"
  | rounds => "runtime"

def key : Limit → String
  | ticks => "max_ticks_per_frame"
  | rounds => "max_custom_event_rounds"

def least : Limit → Nat
  | ticks => 1
  | rounds => 0

def value : Limit → Settings → UInt32
  | ticks, s => s.maxTicksPerFrame
  | rounds, s => s.maxRounds

/-- The number that a text sets a limit to, if it can be read and sets it. -/
def set? (limit : Limit) (text : String) : Option Nat :=
  (Ini.read text).toOption.bind fun ini => Settings.word? ini limit.title limit.key

variable {limit : Limit} {text : String} {n : Nat}

/-- Every word of 64 bits can be set. -/
theorem set?_written (limit : Limit) (word : n < twoTo 64) :
    limit.set? (Ini.writeSection limit.title [(limit.key, (Numeral.ofInt n).text)]) = some n := by
  have titled : Ini.IsName limit.title := by cases limit <;> decide
  have named : Ini.IsName limit.key := by cases limit <;> decide
  -- the text has one section with one entry, all of plain characters
  have good : ∀ s ∈ [(limit.title, [(limit.key, (Numeral.ofInt n).text)])],
      Ini.IsName s.1 ∧ Ini.Writable s.2 := by
    simp [Ini.Writable, titled, named, solid_numeral]
  have read := Ini.read_sections good
  simp only [List.map_cons, List.map_nil, String.join_cons, String.join_nil, String.append_empty,
    List.flatMap_cons, List.flatMap_nil, List.append_nil] at read
  have wrote : Ini.get? (Ini.entries limit.title [(limit.key, (Numeral.ofInt n).text)]) limit.title limit.key =
      some (Numeral.ofInt n).text := by
    simp [Ini.get?_entries]
  rw [set?, read]
  exact Settings.word?_written wrote word

/-- A text that sets a limit can be loaded, and gives the low half of the number, or the least limit. -/
theorem load_limit (sets : limit.set? text = some n) (s : Settings) :
    ∃ t, s.load text = .ok t ∧ (limit.value t).toNat = max limit.least (n % 2 ^ 32) := by
  unfold set? at sets
  cases read : Ini.read text with
  | error e =>
    rw [read] at sets
    cases sets
  | ok ini =>
    rw [read] at sets
    have word : Settings.word? ini limit.title limit.key = some n := sets
    refine ⟨s.apply ini, by rw [Settings.load, read]; rfl, ?_⟩
    -- only the limit on ticks is raised to one, so the low half of zero matters there
    cases limit with
    | ticks =>
      have word : Settings.word? ini "loop" "max_ticks_per_frame" = some n := word
      simp only [value, Settings.apply, word, least]
      split
      next zero =>
        have low : n % 2 ^ 32 = 0 := by simpa using congrArg UInt32.toNat zero
        rw [low]
        rfl
      next other =>
        have low : n % 2 ^ 32 ≠ 0 := fun low => other (UInt32.toNat_inj.mp (by simpa using low))
        rw [UInt32.toNat_ofNat']
        omega
    | rounds =>
      have word : Settings.word? ini "runtime" "max_custom_event_rounds" = some n := word
      simp [value, Settings.apply, word, least]

end Limit

/-! ### rounds of a tick -/

variable {τ : Type}

namespace Moment

variable [Scalar τ] {w : World τ} {delta : τ} {m next : Moment τ}

/-- Up to the custom events a tick has had all its rounds but those that are left. After them it has had all, or no
custom event is left over. -/
def Spends (most : Nat) (m : Moment τ) : Prop :=
  match m.phase with
  | .create | .step | .collision | .custom _ => m.world.rounds.length + m.roundsLeft = most
  | .commit => m.walking = none ∧ m.agenda = [] ∧ (m.world.rounds.length = most ∨ m.world.queue = [])
  | .transition | .request | .close => True

/-- While there is still something to do, no round begins and the phase stays. -/
theorem Moved.busy (moved : Moved m next) (coherent : m.Coherent) (busy : m.walking ≠ none ∨ m.agenda ≠ []) :
    next.phase = m.phase ∧ next.world.rounds = m.world.rounds := by
  constructor
  · cases moved with
    | walk _ | finish _ | park _ | halt _ | fail _ | pass _ | drop _ | start _ _ | resume _ _ => rfl
    | _ => simp at busy
  · cases moved.emits coherent with
    | adds _ _ rounds _ _ => exact rounds
    | takes idle empty _ _ _ _ _ _ | closes idle empty _ _ _ _ => simp [idle, empty] at busy

theorem Moved.spends {most : Nat} (moved : Moved m next) (coherent : m.Coherent)
    (limit : m.world.settings.maxRounds.toNat = most) (spends : m.Spends most) : next.Spends most := by
  have settings := moved.sameGame.settings
  by_cases busy : m.walking ≠ none ∨ m.agenda ≠ []
  · obtain ⟨phase, rounds⟩ := moved.busy coherent busy
    unfold Spends roundsLeft at spends ⊢
    rw [phase, rounds, settings]
    -- at the commit nothing is to be done
    cases at_phase : m.phase <;> simp_all
  · cases moved with
    | walk _ | finish _ | park _ | halt _ | fail _ | pass _ | drop _ | start _ _ | resume _ _ => simp at busy
    | create | created | stepped | collided => exact spends
    | step taken =>
      rcases World.takeDue_cases taken with ⟨_, rfl, _⟩ | ⟨_, _, _, rfl⟩ <;> exact spends
    | @handle w taken left emits _ queued _ noted =>
      -- the round that begins is one of those that were left
      have spent : w.rounds.length + (left + 1) = most := spends
      have round : taken.rounds = w.rounds ++ [emits] := by
        rw [noted]
        exact World.rounds_note _ _
      change taken.rounds.length + left = most
      rw [round, List.length_append, List.length_singleton]
      omega
    | @handled w left _ done =>
      have spent : w.rounds.length + left = most := spends
      refine ⟨rfl, rfl, ?_⟩
      -- the events are over since no round is left, or since nothing is queued
      rcases done with rfl | none
      · exact .inl spent
      · exact .inr (by rw [World.queue, none, List.reverse_nil])
    | commit | transition _ | transitionFailed _ | request _ | requestFailed _ | close => trivial

/-- Where no transition runs, a tick begins with all its rounds. -/
theorem begin_spends (still : w.transition.isRunning = false) (delta : τ) :
    (begin w delta).Spends w.settings.maxRounds.toNat := by
  have first : begin w delta =
      ⟨{ w with clock := w.clock.advance delta, journal := [] }, .create, none, [], w.live.filter (·.fresh), none⟩ := by
    rw [begin, still]
    rfl
  rw [first]
  exact Nat.zero_add _

/-- A tick has had all its rounds but those that are left. -/
theorem steps_spend (coherent : w.Coherent) (still : w.transition.isRunning = false)
    (inside : Steps (begin w delta) m) : m.Spends w.settings.maxRounds.toNat := by
  -- the phase of custom events reads the limit when it begins, so the settings are carried along
  have settled : m.world.settings = w.settings ∧ m.Spends w.settings.maxRounds.toNat := by
    refine inside.keeps (P := fun m => m.world.settings = w.settings ∧ m.Spends w.settings.maxRounds.toNat)
      (begin_coherent coherent delta) ⟨by rw [begin_world], begin_spends still delta⟩ ?_
    rintro m next moved coherent ⟨same, spends⟩
    exact ⟨moved.sameGame.settings.trans same, moved.spends coherent (by rw [same]) spends⟩
  exact settled.2

end Moment

theorem World.closeTick_rounds [Scalar τ] (w : World τ) :
    w.closeTick.world.rounds = w.rounds ∧ w.closeTick.world.emitted = w.emitted := by
  obtain ⟨journal, program⟩ := closeTick_journal w
  simp only [rounds, emitted, happenings, journal, program, and_self]

/-! ### limits in a run -/

namespace Game

variable [Scalar τ] {settings : Settings} {calls : List (HostCall τ)} {delta : τ}

/-- A tick that comes to its end with rounds to spare has handled all that was queued before it and all that it has
emitted. -/
theorem Plays.handles (plays : ((new settings : Game τ).after calls).Plays delta)
    (live : (((new settings : Game τ).after calls).tick delta).1.state.isLive = true)
    (still : ((new settings : Game τ).after calls).world.transition.isRunning = false) :
    let g := (new settings : Game τ).after calls
    (g.tick delta).1.world.rounds.length = settings.maxRounds.toNat ∨
      g.world.queue ++ (g.tick delta).1.world.emitted = (g.tick delta).1.world.rounds.flatten := by
  intro g
  have ended := plays.finishes live
  have finished := World.events_finish ended
  have coherent : g.world.Coherent := after_coherent settings calls
  have most : g.world.settings = settings := after_settings settings calls
  have inside := World.events_pass finished
  have account := Moment.steps_account coherent inside rfl
  obtain ⟨_, _, spent⟩ : _ ∧ _ ∧ _ := Moment.steps_spend coherent still inside
  obtain ⟨rounds, emitted⟩ := World.closeTick_rounds (g.world.events delta).world
  rw [plays.world ended, World.tick_closes finished, rounds, emitted, ← most]
  -- either all rounds have been had, or the queue is empty at the end
  rcases spent with all | none
  · exact .inl all
  · right
    unfold World.Accounts at account
    rw [account, none, List.append_nil]

end Game

/-- In every run with the settings, ticks that come to their end with custom events to handle have a round of them.
While a transition runs nothing is handled. -/
def Settings.HandlesEvents (s : Settings) : Prop :=
  ∀ (calls : List (HostCall Float)) (delta : Float),
    let g : Game Float := (Game.new s).after calls
    g.Plays delta → g.world.transition.isRunning = false → (g.tick delta).1.state.isLive = true →
    g.world.queue ≠ [] ∨ (g.tick delta).1.world.emitted ≠ [] → (g.tick delta).1.world.rounds ≠ []

/-- In no run with the settings a custom event is handled. -/
def Settings.IgnoresEvents (s : Settings) : Prop :=
  ∀ (calls : List (HostCall Float)) (delta : Float),
    let g : Game Float := (Game.new s).after calls
    g.Plays delta → (g.tick delta).1.world.rounds = []

theorem Settings.handlesEvents {s : Settings} (some : 0 < s.maxRounds.toNat) : s.HandlesEvents := by
  intro calls delta g plays still live events none
  -- a tick without a round has some to spare, so nothing was there to be handled
  rcases plays.handles live still with all | handled
  · rw [none, List.length_nil] at all
    omega
  · rw [none, List.flatten_nil, List.append_eq_nil_iff] at handled
    rcases events with queued | emitted
    · exact queued handled.1
    · exact emitted handled.2

theorem Settings.ignoresEvents {s : Settings} (none : s.maxRounds.toNat = 0) : s.IgnoresEvents := by
  intro calls delta g plays
  have most : g.world.settings = s := Game.after_settings s calls
  obtain ⟨last, inside, world, _⟩ := Moment.tick_passes g.world delta
  have fewer := Moment.steps_rounds (Game.after_coherent s calls) inside
  rw [plays.rounds, ← world]
  apply List.eq_nil_of_length_eq_zero
  rw [most] at fewer
  omega

/-- Two texts that set a limit are read over any settings. Each limit is the low half of the number, and at least one
tick. Up to the greatest word of 32 bits a greater number gives no smaller limit, and a positive one gives a positive
limit. In runs with a number of rounds whose low half is not zero custom events are handled, and in others none is. -/
theorem greater_limit (limit : Limit) {few more : String} {n m : Nat} (fewer : limit.set? few = some n)
    (greater : limit.set? more = some m) (s : Settings) :
    ∃ t u, s.load few = .ok t ∧ s.load more = .ok u ∧
      (limit.value t).toNat = max limit.least (n % 2 ^ 32) ∧
      (n ≤ m → m < 2 ^ 32 → limit.value t ≤ limit.value u) ∧
      (0 < n → n < 2 ^ 32 → 0 < limit.value t) ∧
      (limit = .rounds → (n % 2 ^ 32 ≠ 0 → t.HandlesEvents) ∧ (n % 2 ^ 32 = 0 → t.IgnoresEvents)) := by
  obtain ⟨t, loaded, low⟩ := limit.load_limit fewer s
  obtain ⟨u, loaded', low'⟩ := limit.load_limit greater s
  refine ⟨t, u, loaded, loaded', low, fun ordered fits => ?_, fun positive fits => ?_, ?_⟩
  · -- small numbers are their own low halves
    rw [Nat.mod_eq_of_lt (by omega)] at low low'
    rw [UInt32.le_iff_toNat_le]
    omega
  · rw [Nat.mod_eq_of_lt fits] at low
    rw [UInt32.lt_iff_toNat_lt, low]
    exact Nat.lt_of_lt_of_le positive (Nat.le_max_right _ _)
  · rintro rfl
    have low : t.maxRounds.toNat = n % 2 ^ 32 := low.trans (Nat.zero_max _)
    constructor
    · intro some
      apply Settings.handlesEvents
      omega
    · intro none
      exact Settings.ignoresEvents (low.trans none)

/-- Custom events are handled if three rounds are allowed, and the most rounds are no fewer. -/
theorem greater_limit_three :
    let few := "[runtime]\nmax_custom_event_rounds = 3"
    let more := "[runtime]\nmax_custom_event_rounds = 4294967295"
    Limit.rounds.set? few = some 3 ∧ Limit.rounds.set? more = some 4294967295 ∧
      ∃ t u, Settings.default.load few = .ok t ∧ Settings.default.load more = .ok u ∧
        t.maxRounds.toNat = 3 ∧ t.maxRounds ≤ u.maxRounds ∧ 0 < t.maxRounds ∧ t.HandlesEvents := by
  intro few more
  have fewer : Limit.rounds.set? few = some 3 := by decide +kernel
  have greater : Limit.rounds.set? more = some 4294967295 := by decide +kernel
  obtain ⟨t, u, loaded, loaded', low, grows, positive, handles⟩ :=
    greater_limit .rounds fewer greater Settings.default
  have ordered : t.maxRounds ≤ u.maxRounds := grows (by decide) (by decide)
  have some : 0 < t.maxRounds := positive (by decide) (by decide)
  exact ⟨fewer, greater, t, u, loaded, loaded', low, ordered, some, (handles rfl).1 (by decide)⟩

/-- Of any numbers of 64 bits that are set over any settings the greater one gives no smaller limit. -/
def Limit.Grows (limit : Limit) : Prop :=
  ∀ (few more : String) (n m : Nat) (s t u : Settings), limit.set? few = some n → limit.set? more = some m →
    n ≤ m → s.load few = .ok t → s.load more = .ok u → limit.value t ≤ limit.value u

/-- Any positive number that is set over any settings gives a positive limit. -/
def Limit.StaysPositive (limit : Limit) : Prop :=
  ∀ (text : String) (n : Nat) (s t : Settings), limit.set? text = some n → 0 < n → s.load text = .ok t →
    0 < limit.value t

/-- It is not so that limits grow with the numbers that are set, nor that positive numbers of rounds stay positive:
after the greatest word of 32 bits come one tick and no round. -/
theorem greater_limit_refuted :
    ¬ Limit.ticks.Grows ∧ ¬ Limit.rounds.Grows ∧ ¬ Limit.rounds.StaysPositive := by
  -- both numbers can be written, and the greater one has nothing in its low half
  have falls (limit : Limit) : ¬ limit.Grows := by
    intro grows
    have below := limit.set?_written (show 4294967295 < twoTo 64 by decide)
    have beyond := limit.set?_written (show 4294967296 < twoTo 64 by decide)
    obtain ⟨t, loaded, most⟩ := limit.load_limit below Settings.default
    obtain ⟨u, loaded', least⟩ := limit.load_limit beyond Settings.default
    have fewer := grows _ _ _ _ _ _ _ below beyond (by decide) loaded loaded'
    rw [UInt32.le_iff_toNat_le, most, least] at fewer
    cases limit <;> exact absurd fewer (by decide)
  refine ⟨falls .ticks, falls .rounds, fun positive => ?_⟩
  have beyond := Limit.rounds.set?_written (show 4294967296 < twoTo 64 by decide)
  obtain ⟨u, loaded, none⟩ := Limit.rounds.load_limit beyond Settings.default
  have some := positive _ _ _ _ beyond (by decide) loaded
  rw [UInt32.lt_iff_toNat_lt, none] at some
  exact absurd some (by decide)

end Gameplay
