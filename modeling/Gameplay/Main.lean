import Gameplay.Json.Writer
import Gameplay.Player

/-!
# The player as a program

Reads the two files, plays, and prints the report.
-/

namespace Gameplay.Player

/-- The system's number for an error. A call that opens a file gives it negated. -/
def systemNumber (code : UInt32) : Nat := if code < 0x80000000 then code.toNat else (0 - code).toNat

/-- Why the system could not read a file. It has one name for several reasons, and tells them apart by
number. -/
def fileFault (e : IO.Error) : FileFault :=
  match e with
  | .noFileOrDirectory _ _ _ => .missing
  | .permissionDenied _ code _ => if systemNumber code = 13 then .forbidden else .other (toString e)
  | .inappropriateType _ code _ =>
    match systemNumber code with
    | 20 => .notFolder
    | 21 => .isFolder
    | _ => .other (toString e)
  | .invalidArgument _ code _ =>
    match systemNumber code with
    | 36 => .nameTooLong
    | 40 => .tooManyLinks
    | _ => .other (toString e)
  | .userError _ => .notText
  | _ => .other (toString e)

def readText (path : String) : IO (Except FileFault String) := do
  try
    return .ok (← IO.FS.readFile path)
  catch e =>
    return .error (fileFault e)

def usage : String :=
  "Usage: player [--room ROOM] [--ticks N] [--config PATH] [--hold KEY]... [--dump] PROJECT"

end Gameplay.Player

def main (args : List String) : IO UInt32 := do
  match Gameplay.Request.read args with
  | .misuse =>
    IO.eprintln Gameplay.Player.usage
    return 2
  | .information =>
    IO.println Gameplay.Player.usage
    return 0
  | .play options =>
    let config ← Gameplay.Player.readText (options.config.getD Gameplay.Player.defaultConfig)
    let project ← Gameplay.Player.readText options.project
    let report := Gameplay.Player.play options config project
    IO.eprint report.diagnostics
    if let some snapshot := report.dump then
      IO.println snapshot.toJson.pretty
    return .ofNat report.exitCode
