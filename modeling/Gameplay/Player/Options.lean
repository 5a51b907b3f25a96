import Gameplay.Number.Reader

/-!
# The command line

The player is called with a project and options, in any order. A long option has its value after an
equals sign or as the next argument; `--` ends the options. Anything else is misuse.
-/

namespace Gameplay

structure Options where
  project : String
  room : Option String
  ticks : Nat
  config : Option String
  hold : List String
  dump : Bool
deriving DecidableEq, Repr

/-- What a command line asks for. -/
inductive Request
  | play (options : Options)
  | information
  | misuse
deriving DecidableEq, Repr

/-- An option with a value. -/
inductive ValueOption
  | room
  | ticks
  | config
  | hold
deriving DecidableEq, Repr

inductive LongOption
  | value (option : ValueOption)
  | dump
  | information
deriving DecidableEq, Repr

namespace LongOption

def ofName? : List Char → Option LongOption
  | ['r', 'o', 'o', 'm'] => some (.value .room)
  | ['t', 'i', 'c', 'k', 's'] => some (.value .ticks)
  | ['c', 'o', 'n', 'f', 'i', 'g'] => some (.value .config)
  | ['h', 'o', 'l', 'd'] => some (.value .hold)
  | ['d', 'u', 'm', 'p'] => some .dump
  | ['h', 'e', 'l', 'p'] => some .information
  | ['v', 'e', 'r', 's', 'i', 'o', 'n'] => some .information
  | _ => none

end LongOption

/-- The arguments read so far. -/
structure Arguments where
  project : Option String
  room : Option String
  ticks : Option Nat
  config : Option String
  hold : List String
  dump : Bool

namespace Arguments

def none : Arguments := ⟨.none, .none, .none, .none, [], false⟩

def defaultTicks : Nat := 600

/-- The count of ticks that a text spells: a whole number of 32 bits, perhaps with a sign. -/
def ticks? (text : String) : Option Nat :=
  let (negative, digits) := match text.toList with
    | '-' :: rest => (true, rest)
    | '+' :: rest => (false, rest)
    | rest => (false, rest)
  match spanDigits digits with
  | (_ :: _, []) =>
    let n := digitsValue digits
    if n < twoTo 32 && (!negative || n == 0) then some n else .none
  | _ => .none

/-- Takes the project. It is given once and is not empty. -/
def takeProject? (a : Arguments) (text : String) : Option Arguments :=
  if a.project.isSome ∨ text = "" then .none else some { a with project := some text }

/-- Takes the value of an option. Only keys to hold may be given more than once. -/
def takeValue? (a : Arguments) (option : ValueOption) (text : String) : Option Arguments :=
  match option with
  | .room => if a.room.isSome then .none else some { a with room := some text }
  | .ticks =>
    if a.ticks.isSome then .none else (ticks? text).map fun n => { a with ticks := some n }
  | .config =>
    if a.config.isSome ∨ text = "" then .none else some { a with config := some text }
  | .hold => some { a with hold := a.hold ++ [text] }

/-- Takes the flag that asks for a dump, which is given once. -/
def takeDump? (a : Arguments) : Option Arguments :=
  if a.dump then .none else some { a with dump := true }

def finish (a : Arguments) : Request :=
  match a.project with
  | .none => .misuse
  | some project => .play ⟨project, a.room, a.ticks.getD defaultTicks, a.config, a.hold, a.dump⟩

end Arguments

namespace Request

/-- Reads arguments after `--`, of which only the project can be one. -/
def readPlain (a : Arguments) : List String → Request
  | [] => a.finish
  | arg :: rest =>
    match a.takeProject? arg with
    | some a => readPlain a rest
    | none => .misuse

/-- The name of a long option and the value after its equals sign, if there is one. -/
def splitOption (cs : List Char) : List Char × Option String :=
  match cs.dropWhile (· != '=') with
  | [] => (cs, none)
  | _ :: value => (cs.takeWhile (· != '='), some (String.ofList value))

/-- Reads arguments from left to right. `waiting` is an option that still lacks its value. -/
def readFrom (a : Arguments) (waiting : Option ValueOption) : List String → Request
  | [] => if waiting.isSome then .misuse else a.finish
  | arg :: rest =>
    match arg.toList with
    | ['-', '-'] => if waiting.isSome then .misuse else readPlain a rest
    | '-' :: '-' :: long =>
      if waiting.isSome then .misuse
      else
        let (name, value) := splitOption long
        match LongOption.ofName? name, value with
        | some (.value option), some text =>
          match a.takeValue? option text with
          | some a => readFrom a none rest
          | none => .misuse
        | some (.value option), none => readFrom a (some option) rest
        | some .dump, none =>
          match a.takeDump? with
          | some a => readFrom a none rest
          | none => .misuse
        | some .information, none => .information
        | _, _ => .misuse
    | '-' :: short :: _ =>
      if waiting.isNone && (short == 'h' || short == 'V') then .information else .misuse
    | _ =>
      match waiting with
      | some option =>
        match a.takeValue? option arg with
        | some a => readFrom a none rest
        | none => .misuse
      | none =>
        match a.takeProject? arg with
        | some a => readFrom a none rest
        | none => .misuse

def read (args : List String) : Request := readFrom .none none args

end Request

end Gameplay
