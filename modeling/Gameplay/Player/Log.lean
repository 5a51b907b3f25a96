import Gameplay.Text.Plain

/-!
# The log

An entry of the log begins with its level. The further lines of a message are indented, and the log is
plain text whatever a message holds: a sequence that a message leaves open even takes the end of the
entry with it.
-/

namespace Gameplay.Log

/-- How serious an entry is. -/
inductive Level
  | info
  | error
deriving DecidableEq, Repr

/-- What an entry of a level begins with. -/
def Level.head : Level → String
  | .info => "[INFO player] "
  | .error => "[ERROR player] "

structure Entry where
  level : Level
  message : String
deriving DecidableEq, Repr

/-- A message with its lines after the first one indented. -/
def indented (message : String) : String :=
  String.ofList (message.toList.flatMap fun c => if c = '\n' then ['\n', ' ', ' ', ' ', ' '] else [c])

def Entry.text (e : Entry) : String := plain (e.level.head ++ indented e.message ++ "\n")

end Gameplay.Log
