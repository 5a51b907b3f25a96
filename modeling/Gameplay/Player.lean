import Gameplay.Document.Reader
import Gameplay.GameLoop
import Gameplay.Player.Files
import Gameplay.Player.Log
import Gameplay.Player.Options

/-!
# The player

The player runs a project without a window: it holds keys down, lets the game tick as often as
asked, logs what a screen and a mixer would get, and can give the final snapshot.
-/

namespace Gameplay

/-- What a run of the player gives: its exit code, its log, the message of an error, and the final
snapshot if it was asked for. -/
structure Report where
  exitCode : Nat
  log : List Log.Entry
  error : Option String
  dump : Option (Snapshot Float)

/-- What is written beside the snapshot: the log and then the error. -/
def Report.diagnostics (r : Report) : String :=
  String.join (r.log.map Log.Entry.text) ++ (r.error.map (· ++ "\n")).getD ""

namespace Player

/-- The settings file that is read when none is named. -/
def defaultConfig : String := "./playforge.ini"

def failure (log : List Log.Entry) (message : String) : Report :=
  ⟨1, log, some ("Error: " ++ message), none⟩

def faultEntry (fault : Fault Float) : Log.Entry :=
  let kind := if fault.isConfiguration then "Configuration" else "Runtime"
  ⟨.error, kind ++ " error, stopping run: " ++ fault.message⟩

/-- A run that a fault of the game has stopped after some messages. -/
def stopped (messages : List String) (fault : Fault Float) : Report :=
  failure (messages.map (⟨.info, ·⟩) ++ [faultEntry fault]) fault.message

/-- The settings, from the text of the settings file or the reason why it could not be read. Only a
file that was asked for must be readable. -/
def settings (config : Option String) (file : Except FileFault String) : Except String Settings :=
  let loaded : Except String Settings := match file with
    | .error fault => .error fault.message
    | .ok text => (Settings.default.load text).mapError IniError.message
  match loaded, config with
  | .ok s, _ => .ok s
  | .error _, none => .ok .default
  | .error reason, some path => .error (Settings.fileFailure path reason)

/-- The project, from its text or the reason why it could not be read. -/
def project (file : Except FileFault String) : Except String Project :=
  match file with
  | .error fault => .error ("failed to read project document: " ++ fault.message)
  | .ok text =>
    match Project.read? text with
    | none => .error "invalid project document"
    | some p => .ok p

/-- The text of a toast that was not shown before: its text differs, or its time has grown. -/
def appeared (shown active : Option (Toast Float)) : Option String :=
  match active, shown with
  | some now, some before =>
    if now.text != before.text || before.remaining < now.remaining then some now.text else none
  | some now, none => some now.text
  | none, _ => none

/-- The messages of the log for output, and the toast that is shown after it. -/
def logOutputs (shown : Option (Toast Float)) : List (Output Float) → List String × Option (Toast Float)
  | [] => ([], shown)
  | .play sound :: rest =>
    let (lines, shown) := logOutputs shown rest
    (("Sound: " ++ sound) :: lines, shown)
  | .draw snapshot :: rest =>
    let active := snapshot.toasts.active
    let (lines, last) := logOutputs active rest
    (((appeared shown active).map ("Toast: " ++ ·)).toList ++ lines, last)

structure Session where
  loop : GameLoop Float
  ran : Nat
  shown : Option (Toast Float)
  messages : List String

/-- Runs frames of one tick's length until enough ticks have run, the run is over, or a frame runs no
tick. Each frame but the last runs at least one tick, so `ticks` frames are enough. -/
def playFrames (tickMs : Float) (ticks : Nat) : Nat → Session → Session × Option (Fault Float)
  | 0, s => (s, none)
  | frames + 1, s =>
    if ticks ≤ s.ran || !s.loop.game.state.isLive then (s, none)
    else
      let ticked := s.loop.frame tickMs
      let (lines, shown) := logOutputs s.shown ticked.outputs
      let next := ⟨ticked.loop, s.ran + ticked.count, shown, s.messages ++ lines⟩
      match ticked.fault with
      | some fault => (next, some fault)
      | none => if ticked.count = 0 then (next, none) else playFrames tickMs ticks frames next

def stateName : RunState → String
  | .idle => "Idle"
  | .running => "Running"
  | .transitioning => "Transitioning"
  | .stopped => "Stopped"

def summary (ran : Nat) (s : Snapshot Float) : String :=
  "Ran " ++ (Numeral.ofInt ran).text ++ " ticks: state " ++ stateName s.state ++ ", score "
    ++ plainText s.score ++ ", " ++ (Numeral.ofInt s.instances.length).text ++ " instances"

def playRoom (options : Options) (s : Settings) (p : Project) (room : String) : Report :=
  match (Game.new s).start p room with
  | (_, some fault) => stopped [] fault
  | (game, none) =>
    let game := options.hold.foldl Game.press game
    match playFrames s.tickMs options.ticks options.ticks ⟨.new game, 0, none, []⟩ with
    | (session, some fault) => stopped session.messages fault
    | (session, none) =>
      let snapshot := session.loop.game.snapshot
      let farewell := (snapshot.ended.map ("Game over: " ++ ·)).toList
      let messages := session.messages ++ summary session.ran snapshot :: farewell
      ⟨0, messages.map (⟨.info, ·⟩), none, if options.dump then some snapshot else none⟩

/-- Plays what the options ask for, given the settings file and the project file as they were read. -/
def play (options : Options) (configFile projectFile : Except FileFault String) : Report :=
  match settings options.config configFile with
  | .error message => failure [] message
  | .ok s =>
    match project projectFile with
    | .error message => failure [] message
    | .ok p =>
      match options.room.or (p.rooms.head?.map (·.id)) with
      | none => failure [] "project has no rooms"
      | some room => playRoom options s p room

end Player

end Gameplay
