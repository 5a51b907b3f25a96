import Gameplay.Geometry
import Gameplay.Number.Reader
import Gameplay.Settings.Ini

/-!
# Settings

How a game is timed and what it does by default. Settings are read from INI text over earlier ones:
what the text does not set, or sets to something unusable, stays as it is.
-/

namespace Gameplay

/-- The settings of a game. Times are in milliseconds. -/
structure Settings where
  tickMs : Float
  maxFrameMs : Float
  maxTicksPerFrame : UInt32
  spriteWidth : Float32
  spriteHeight : Float32
  toastMs : Float
  maxRounds : UInt32
  seed : Option UInt64
deriving DecidableEq

namespace Settings

/-- Sixty ticks a second, and sprites of 32 by 32. -/
def default : Settings := ⟨1000 / 60, 250, 5, 32, 32, 2000, 16, none⟩

/-- The size of an object with neither a size nor a sprite. -/
def spriteSize (s : Settings) : Vec Float32 := ⟨s.spriteWidth, s.spriteHeight⟩

def number? (ini : List IniEntry) (inSection key : String) : Option Float :=
  (Ini.get? ini inSection key).bind readFloat?

def positive? (ini : List IniEntry) (inSection key : String) : Option Float :=
  (number? ini inSection key).filter fun x => 0 < x

def word? (ini : List IniEntry) (inSection key : String) : Option Nat :=
  (Ini.get? ini inSection key).bind readWord?

/-- Settings with those of INI entries put over them. Counts keep their low 32 bits. -/
def apply (s : Settings) (ini : List IniEntry) : Settings where
  tickMs := (positive? ini "loop" "tick_ms").getD s.tickMs
  maxFrameMs := (positive? ini "loop" "max_frame_ms").getD s.maxFrameMs
  maxTicksPerFrame :=
    match word? ini "loop" "max_ticks_per_frame" with
    | some n => if UInt32.ofNat n = 0 then 1 else .ofNat n
    | none => s.maxTicksPerFrame
  spriteWidth := ((number? ini "runtime" "default_sprite_width").map narrow).getD s.spriteWidth
  spriteHeight := ((number? ini "runtime" "default_sprite_height").map narrow).getD s.spriteHeight
  toastMs := (number? ini "runtime" "default_toast_ms").getD s.toastMs
  maxRounds := ((word? ini "runtime" "max_custom_event_rounds").map .ofNat).getD s.maxRounds
  seed := ((word? ini "runtime" "seed").map .ofNat).or s.seed

def load (s : Settings) (text : String) : Except IniError Settings := (Ini.read text).map s.apply

def save (s : Settings) : String :=
  Ini.writeSection "loop"
      [("max_frame_ms", plainText s.maxFrameMs),
        ("max_ticks_per_frame", (Numeral.ofInt s.maxTicksPerFrame.toNat).text),
        ("tick_ms", plainText s.tickMs)]
    ++ Ini.writeSection "runtime"
      ([("default_sprite_height", plainText32 s.spriteHeight),
        ("default_sprite_width", plainText32 s.spriteWidth),
        ("default_toast_ms", plainText s.toastMs),
        ("max_custom_event_rounds", (Numeral.ofInt s.maxRounds.toNat).text)]
        ++ (s.seed.map fun seed => ("seed", (Numeral.ofInt seed.toNat).text)).toList)

def textFailure (e : IniError) : String := "Failed to parse config: " ++ e.message

def fileFailure (path reason : String) : String :=
  "Failed to load config file: couldn't read " ++ path ++ ": " ++ reason

end Settings

end Gameplay
