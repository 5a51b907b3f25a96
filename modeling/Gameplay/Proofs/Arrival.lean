import Gameplay.Proofs.ExactTime
import Gameplay.Proofs.RoomChange

/-!
# A room change that is asked for is carried out

The first room that a tick asks for is entered: at the end of this tick if no transition is asked for, and
otherwise on the first later tick by which 220 milliseconds have passed since.

## Main result

`asked_room_is_entered`: this holds for every tick of every run, with exact times.

## Proof strategy

While less than 220 milliseconds have passed, every tick is frozen and takes its length off the transition
(`underway_after`, by induction on the calls); the tick that takes the rest ends it.
-/

namespace Gameplay

/-- A call that neither ends a run nor begins another. -/
def HostCall.keepsRun : HostCall ℚ → Bool
  | .tick delta => decide (0 ≤ delta)
  | .start _ _ | .stop | .reset => false
  | .press _ | .release _ | .releaseAll | .takeSounds | .snapshot => true

def HostCall.length : HostCall ℚ → ℚ
  | .tick delta => delta
  | _ => 0

def HostCall.total : List (HostCall ℚ) → ℚ
  | [] => 0
  | c :: calls => c.length + total calls

theorem HostCall.length_nonneg {c : HostCall ℚ} (keeps : c.keepsRun = true) : 0 ≤ c.length := by
  cases c with
  | tick delta => exact of_decide_eq_true keeps
  | start _ _ | stop | reset => cases keeps
  | press _ | release _ | releaseAll | takeSounds | snapshot => exact le_refl 0

theorem HostCall.total_snoc (calls : List (HostCall ℚ)) (c : HostCall ℚ) :
    total (calls ++ [c]) = total calls + c.length := by
  induction calls with
  | nil => simp [total]
  | cons first calls ih => rw [List.cons_append, total, total, ih, add_assoc]

namespace Game

/-- A world some time after a transition to a room has started: the transition runs, and what belongs to
the room is as it was. -/
structure Underway (first : World ℚ) (request : RoomRequest) (left : ℚ) (w : World ℚ) : Prop where
  transition : w.transition = ⟨request.transition, left, some request.room⟩
  room : w.room = first.room
  instances : w.instances = first.instances

variable {settings : Settings} {calls later : List (HostCall ℚ)} {first : World ℚ} {request : RoomRequest}
  {left : ℚ}

private theorem Underway.running {w : World ℚ} (underway : Underway first request left w)
    (timed : request.transition ≠ .none) : w.transition.isRunning = true := by
  rw [underway.transition]
  exact Transition.isRunning_iff.mpr timed

private theorem plays_running {delta : ℚ} (forward : 0 ≤ delta)
    (running : ((new settings : Game ℚ).after calls).world.transition.isRunning = true) :
    ((new settings : Game ℚ).after calls).Plays delta := by
  have settled : ((new settings : Game ℚ).after calls).world.Settled := after_settled settings calls
  exact ⟨rfl, not_lt.mpr forward, settled.live running⟩

/-- A call that keeps the run takes its time off the transition, as long as some is left. -/
private theorem Underway.call {c : HostCall ℚ} (keeps : c.keepsRun = true)
    (timed : request.transition ≠ .none)
    (underway : Underway first request left ((new settings : Game ℚ).after calls).world)
    (soon : 0 < left - c.length) :
    Underway first request (left - c.length) (((new settings : Game ℚ).after calls).call c).1.world := by
  cases c with
  | tick delta =>
    have forward : 0 ≤ delta := of_decide_eq_true keeps
    have running := underway.running timed
    have plays := plays_running forward running
    have rest : (((new settings : Game ℚ).after calls).world.opened delta).transitionLeft = left - delta := by
      rw [World.transitionLeft_exact (after_scale settings calls) forward, underway.transition]
    have settled : ((new settings : Game ℚ).after calls).world.Settled := after_settled settings calls
    -- a transition with time left freezes the game, so nothing else has changed
    have world : (((new settings : Game ℚ).after calls).tick delta).1.world =
        ((new settings : Game ℚ).after calls).world.frozen delta := by
      rw [plays.tick, settled.tick_frozen (after_coherent settings calls) (after_declared settings calls)
        running (by rw [rest]; exact soon)]
      rfl
    simp only [Game.call, world]
    refine ⟨?_, underway.room, underway.instances⟩
    simp only [World.frozen, rest, underway.transition, HostCall.length]
  | start _ _ | stop | reset => cases keeps
  | press _ | release _ | releaseAll | takeSounds | snapshot =>
    have same : left - (0 : ℚ) = left := sub_zero left
    exact ⟨underway.transition.trans (by simp only [HostCall.length, same]), underway.room,
      underway.instances⟩

/-- While less than 220 milliseconds have passed, the transition that a tick has started runs. -/
private theorem underway_after (timed : request.transition ≠ .none)
    (started : ((new settings : Game ℚ).after calls).world.transition =
      ⟨request.transition, 220, some request.room⟩)
    (keep : ∀ c ∈ later, c.keepsRun = true) (soon : HostCall.total later < 220) :
    Underway ((new settings : Game ℚ).after calls).world request (220 - HostCall.total later)
      ((new settings : Game ℚ).after (calls ++ later)).world := by
  -- the time left is what the calls before the last one leave, so the last one is taken off
  induction later using List.reverseRecOn with
  | nil =>
    rw [List.append_nil]
    exact ⟨started.trans (by simp [HostCall.total]), rfl, rfl⟩
  | append_singleton later c ih =>
    have keeps := keep c (by simp)
    have forward := HostCall.length_nonneg keeps
    rw [HostCall.total_snoc] at soon ⊢
    have before := ih (fun c listed => keep c (List.mem_append_left _ listed)) (by linarith)
    rw [← List.append_assoc, after_append, ← sub_sub]
    exact before.call keeps timed (by linarith)

variable {delta : ℚ}

private theorem Underway.enters (timed : request.transition ≠ .none)
    (underway : Underway first request left ((new settings : Game ℚ).after calls).world)
    (forward : 0 ≤ delta) (reached : left ≤ delta) :
    ((new settings : Game ℚ).after calls).Enters delta request.room := by
  have running := underway.running timed
  have settled : ((new settings : Game ℚ).after calls).world.Settled := after_settled settings calls
  apply (plays_running forward running).enters
  rw [settled.commit_running running]
  apply (settled.closes_running (after_coherent settings calls) (after_declared settings calls)
    running).swaps_over running
  · rw [World.transitionLeft_exact (after_scale settings calls) forward, underway.transition]
    exact not_lt.mpr (sub_nonpos.mpr reached)
  · exact congrArg Transition.room underway.transition

/-- Of the rooms that a tick asks for, the first is entered. In whatever state a host brings about, let a tick
play. The run is in a room, so to restart it is to ask for a room as well. When a request is about to be
followed no transition runs, so none is turned down. Let the events of the tick come to their end. If no room
is asked for and no transition runs, there is no change of rooms. Otherwise the first request is carried out
and the others are passed over: without a transition at the end of this tick, and with one on the first tick
by which 220 milliseconds have passed since, unless the run is stopped or another one begins before. Until
then the transition runs, and what belongs to the room stays as it was. -/
theorem asked_room_is_entered (settings : Settings) (calls : List (HostCall ℚ)) (delta : ℚ) :
    let g : Game ℚ := (new settings).after calls
    let asking := (g.tick delta).1
    g.Plays delta →
      g.world.room.isSome = true ∧
      (∀ m, Moment.Steps (.begin g.world delta) m → m.ending = none → m.phase = .request →
        m.world.pending.room ≠ none → m.world.transition.isRunning = false) ∧
      ((g.world.events delta).ending = .finished →
        (asking.world.requests g.world.room = [] → g.world.transition.isRunning = false →
          asking.world = (g.world.events delta).world.commit.tidied) ∧
        ∀ request rest, asking.world.requests g.world.room = request :: rest →
          (request.transition = .none → g.Enters delta request.room) ∧
          (request.transition ≠ .none →
            asking.world.room = g.world.room ∧
            ∀ later : List (HostCall ℚ), (∀ c ∈ later, c.keepsRun = true) → HostCall.total later < 220 →
              let h := asking.after later
              h.state = .transitioning ∧
              Underway asking.world request (220 - HostCall.total later) h.world ∧
              ∀ length, 0 ≤ length → 220 ≤ HostCall.total later + length →
                h.Enters length request.room)) := by
  intro g asking plays
  have settled : g.world.Settled := after_settled settings calls
  have unasked := (settled.pending plays.live).room
  refine ⟨settled.room plays.live, ?_, ?_⟩
  · intro m inside unended phase asked
    exact Moment.steps_request unasked inside unended phase asked
  intro finished
  have complete : g.Completes delta := plays.completes finished
  constructor
  · intro none still
    exact complete.rests still none
  intro request rest requested
  refine ⟨complete.enters_now requested, fun timed => ?_⟩
  obtain ⟨departed, room⟩ := complete.departs requested timed
  have started : asking.world.transition = ⟨request.transition, 220, some request.room⟩ := departed
  refine ⟨room, fun later keep soon => ?_⟩
  -- the calls that follow go on from the tick that asked
  have same : (new settings : Game ℚ).after (calls ++ [.tick delta]) = asking := after_append ..
  rw [← same] at started ⊢
  have underway := underway_after timed started keep soon
  rw [← after_append]
  refine ⟨(after_settled settings _).state.mpr (underway.running timed), underway, ?_⟩
  intro length forward reached
  exact underway.enters timed forward (by linarith)

/-- The cat leaves the hall on the first tick. After 200 milliseconds it is on its way, and after 220 it is in
the attic. -/
theorem asked_room_is_entered_leaving :
    let g : Game ℚ := (new .default).after [.start (leaving .fade []) "hall"]
    let asking := (g.tick 16).1
    let onTheWay := asking.after [.tick 100, .press "x", .tick 100]
    g.Plays 16 ∧ (g.world.events 16).ending = .finished ∧
      asking.world.requests g.world.room = [⟨"attic", .fade⟩] ∧ onTheWay.state = .transitioning ∧
      onTheWay.Enters 20 "attic" ∧ (onTheWay.tick 20).1.state = .running := by
  have plays : ((new .default : Game ℚ).after [.start (leaving .fade []) "hall"]).Plays 16 := by
    decide +kernel
  have finished : (((new .default : Game ℚ).after [.start (leaving .fade []) "hall"]).world.events 16).ending =
      .finished := by decide +kernel
  have requested : (((new .default : Game ℚ).after [.start (leaving .fade []) "hall"]).tick
      16).1.world.requests ((new .default : Game ℚ).after [.start (leaving .fade []) "hall"]).world.room =
        [⟨"attic", .fade⟩] := by decide +kernel
  obtain ⟨_, _, carried⟩ := asked_room_is_entered .default [.start (leaving .fade []) "hall"] 16 plays
  obtain ⟨_, timed⟩ := (carried finished).2 ⟨"attic", .fade⟩ [] requested
  obtain ⟨_, onTime⟩ := timed nofun
  -- the two ticks of 100 ms are not enough for the transition, and 20 ms more are
  have keep : ∀ c ∈ [HostCall.tick (100 : ℚ), .press "x", .tick 100], c.keepsRun = true := by
    decide +kernel
  obtain ⟨state, _, enters⟩ := onTime _ keep (by decide +kernel)
  have arrives := enters 20 (by decide +kernel) (by decide +kernel)
  exact ⟨plays, finished, requested, state, arrives, (arrives.succeeds (by decide +kernel)).1⟩

end Game

end Gameplay
