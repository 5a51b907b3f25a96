import Gameplay.Proofs.FreshStart
import Gameplay.Proofs.WaitTime

/-!
# Faults

A fault is given back by the call that meets it, and stops the run. Nothing of a run that has stopped goes
on: later calls leave the game as it is, until another run is started or the game is reset.

## Main result

`faults_stop_and_freeze`: this holds for every fault of every call, wherever in a tick it comes from.
-/

namespace Gameplay

variable {τ : Type} [Scalar τ]

def HostCall.mayFail : HostCall τ → Bool
  | .start _ _ => true
  | .tick _ => true
  | _ => false

namespace World

/-- A world in which the run has stopped and nothing waits to go on. -/
structure ShutDown (w : World τ) : Prop where
  state : w.status.state = .stopped
  waits : ∀ i ∈ w.instances, i.waits = []
  keys : w.keys = .empty
  toasts : w.toasts = .empty
  transition : w.transition = .idle
  pending : w.pending = .none

/-- A world in which the game stands as in another one. Its instances differ at most in their waits. -/
structure StandsAs (w w' : World τ) : Prop where
  project : w'.project = w.project
  program : w'.program = w.program
  clock : w'.clock = w.clock
  status : w'.status = w.status
  room : w'.room = w.room
  globals : w'.globals = w.globals
  score : w'.score = w.score
  random : w'.random = w.random
  lastId : w'.lastId = w.lastId
  instances : List.Forall₂ (fun i j => ∃ waits, j = { i with waits := waits }) w.instances w'.instances

/-- After a stop nothing waits to go on. -/
theorem stop_shutDown (w : World τ) : w.stop.ShutDown where
  state := rfl
  waits i member := by
    obtain ⟨_, _, rfl⟩ := List.mem_map.mp member
    rfl
  keys := rfl
  toasts := rfl
  transition := rfl
  pending := rfl

omit [Scalar τ] in
theorem StandsAs.refl (w : World τ) : w.StandsAs w :=
  ⟨rfl, rfl, rfl, rfl, rfl, rfl, rfl, rfl, rfl, List.forall₂_same.mpr fun i _ => ⟨i.waits, rfl⟩⟩

theorem StandsAs.stop {w w' : World τ} (stands : w.StandsAs w') (stopped : w'.status.state = .stopped) :
    w.StandsAs w'.stop := by
  -- the run has stopped, so its state is what a stop makes it
  have same : w'.stop.status = w'.status := congrArg (Status.mk · w'.status.ended) stopped.symm
  refine ⟨stands.project, stands.program, stands.clock, same.trans stands.status, stands.room,
    stands.globals, stands.score, stands.random, stands.lastId, ?_⟩
  refine List.forall₂_map_right_iff.mpr (stands.instances.imp ?_)
  rintro i _ ⟨waits, rfl⟩
  exact ⟨[], rfl⟩

end World

namespace Game

/-! ### the calls that fail -/

private theorem Outcome.shutsDown {faults : Nat} {r : Game τ × Option (Fault τ)}
    (outcome : Outcome faults r) (failed : r.2.isSome = true) : r.1.world.ShutDown := by
  cases outcome with
  | succeeds w => cases failed
  | fails w fault => exact w.stop_shutDown

/-- A call that fails is one that may, and it leaves the run stopped with nothing that waits. -/
theorem call_shutsDown (g : Game τ) (c : HostCall τ) (failed : (g.call c).2.fault?.isSome = true) :
    c.mayFail = true ∧ (g.call c).1.world.ShutDown := by
  cases c with
  | start project room => exact ⟨rfl, (g.start_outcome project room).shutsDown failed⟩
  | tick delta => exact ⟨rfl, (g.tick_outcome delta).shutsDown failed⟩
  | press _ | release _ | releaseAll | stop | reset | takeSounds | snapshot => cases failed

/-- A dangling reference at some point inside a tick is what the tick gives back. -/
theorem Plays.fails_iff {g : Game τ} {delta : τ} (plays : g.Plays delta) (cause : Dangling) :
    (g.tick delta).2 = some (.dangling cause) ↔
      ∃ m, Moment.Steps (.begin g.world delta) m ∧ m.ending = some (.failed cause) := by
  obtain ⟨last, inside, _, ending⟩ := Moment.tick_passes g.world delta
  have outcome : (g.tick delta).2 = some (.dangling cause) ↔
      (g.world.tick delta).ending = .failed cause := by
    rw [plays.tick, settle]
    split
    next other ended => simp [fail, ended]
    next unfailed =>
      refine iff_of_false (fun failed => ?_) (unfailed cause)
      cases failed
  rw [outcome]
  constructor
  · intro failed
    exact ⟨last, inside, ending.trans (congrArg some failed)⟩
  · rintro ⟨m, steps, failed⟩
    -- nothing comes after a failure, so it is the last moment
    have same : last = m := by
      rcases steps.total inside with later | earlier
      · exact later.ended failed
      · exact (earlier.ended ending).symm
    exact Option.some.inj (ending.symm.trans (same ▸ failed))

/-! ### a run that has stopped -/

/-- What is left of a run that has stopped stands still, whatever is called that begins no other run. -/
theorem stopped_stands {g : Game τ} (stopped : g.state = .stopped) {calls : List (HostCall τ)}
    (stay : ∀ c ∈ calls, c.staysInRun = true) : g.world.StandsAs (g.after calls).world := by
  refine after_stays (P := fun h => g.world.StandsAs h.world) ?_ (.refl g.world) stay
  intro h c stays stands
  have still : h.world.status.state = .stopped := (congrArg Status.state stands.status).trans stopped
  rcases h.call_cases stays with ⟨delta, rfl, plays⟩ | ⟨_, same | ⟨keys, sounds, same⟩⟩
  · -- a tick plays only in a live run
    have live := plays.live
    rw [state, still] at live
    cases live
  · -- another stop takes the waits, which are all that may differ
    rw [same]
    exact stands.stop still
  · rw [same]
    exact ⟨stands.project, stands.program, stands.clock, stands.status, stands.room, stands.globals,
      stands.score, stands.random, stands.lastId, stands.instances⟩

/-- Every fault stops the run, is counted once, and freezes the game. In whatever state a host brings about,
the faults that are counted are the calls that failed. A call counts one more if it gives a fault back, and
only a start or a tick does. A dangling reference at whatever point inside a tick is the fault of that tick.
After a fault the run has stopped: no instance waits, no key is held or has an edge, and there is no toast,
no transition and no pending effect. Once a run has stopped, and until the next start or reset, no calls
change the score, the global variables, the room, the clock, or anything of an instance but its waits. -/
theorem faults_stop_and_freeze (settings : Settings) (history : List (HostCall τ)) :
    let fresh : Game τ := new settings
    let g := fresh.after history
    g.faults = failures (fresh.replies history) ∧
    (∀ c, (g.call c).1.faults = g.faults + if (g.call c).2.fault?.isSome then 1 else 0) ∧
    (∀ c, (g.call c).2.fault?.isSome = true → c.mayFail = true ∧ (g.call c).1.world.ShutDown) ∧
    (∀ delta cause, g.Plays delta → ((g.tick delta).2 = some (.dangling cause) ↔
      ∃ m, Moment.Steps (.begin g.world delta) m ∧ m.ending = some (.failed cause))) ∧
    (g.state = .stopped → ∀ calls, (∀ c ∈ calls, c.staysInRun = true) →
      g.world.StandsAs (g.after calls).world) := by
  intro fresh g
  refine ⟨?_, g.call_faults, g.call_shutsDown, ?_, ?_⟩
  · exact (after_faults fresh history).trans (Nat.zero_add _)
  · intro delta cause plays
    exact plays.fails_iff cause
  · intro stopped calls stay
    exact stopped_stands stopped stay

/-- A cat that scores, moves, and then changes a variable that nobody has declared. -/
def careless : Project where
  version := 1
  declarations := []
  objects := [⟨"cat", "Cat", none, some 1, some 1, false, [],
    [⟨.step, .act (.changeScore (.literal (.number 1))) (.act (.move (.literal (.number 2))
      (.literal (.number 0))) (.act (.changeVariable ⟨.global, "lives"⟩ .subtract (.literal (.number 1)))
        .done))⟩]⟩]
  rooms := [⟨"room", "Room", 10, 10, [⟨"bed", "cat", 0, 0, none⟩]⟩]
  sprites := []
  sounds := []

/-- The first tick fails after the cat has scored and moved. What it did stays, through later ticks. -/
theorem faults_stop_and_freeze_careless :
    let started : Game Float := (new .default).after [.start careless "room", .press "x"]
    let failed := (started.call (.tick 16)).1
    let later : List (HostCall Float) := [.tick 16, .press "x", .tick (-1), .stop, .takeSounds, .snapshot]
    (started.call (.tick 16)).2.fault? = some (.dangling (.variable .global "lives")) ∧
      failed.faults = started.faults + 1 ∧ failed.world.ShutDown ∧
      failed.world.score = 1 ∧ (failed.after later).world.score = failed.world.score ∧
      (failed.after later).world.clock = failed.world.clock ∧ (failed.after later).faults = 2 := by
  have fault : (((new .default : Game Float).after [.start careless "room", .press "x"]).call
      (.tick 16)).2.fault? = some (.dangling (.variable .global "lives")) := by decide +kernel
  have score : (((new .default : Game Float).after [.start careless "room", .press "x"]).call
      (.tick 16)).1.world.score = 1 := by decide +kernel
  have twice : ((((new .default : Game Float).after [.start careless "room", .press "x"]).call
      (.tick 16)).1.after [.tick 16, .press "x", .tick (-1), .stop, .takeSounds, .snapshot]).faults = 2 := by
    decide +kernel
  obtain ⟨_, counted, shutsDown, _, _⟩ :=
    faults_stop_and_freeze (τ := Float) .default [.start careless "room", .press "x"]
  have once := counted (.tick 16)
  rw [fault] at once
  have shut := (shutsDown (.tick 16) (by rw [fault]; rfl)).2
  -- the tick that failed belongs to the history of what comes after it
  obtain ⟨_, _, _, _, freezes⟩ :=
    faults_stop_and_freeze (τ := Float) .default ([.start careless "room", .press "x"] ++ [.tick 16])
  have stands := freezes shut.state [.tick 16, .press "x", .tick (-1), .stop, .takeSounds, .snapshot]
    (by decide +kernel)
  exact ⟨fault, once, shut, score, stands.score, stands.clock, twice⟩

end Game

end Gameplay
