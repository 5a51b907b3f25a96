import Gameplay.Text.Blank

/-!
# INI text

Lines of sections and keys. Blanks at the ends of a line, a section name, a key and a value do not
count, nor does anything from the first `;` or `#` of a line on. Names are not case-sensitive.
-/

namespace Gameplay

/-- What is wrong with a line, counted from one. -/
inductive IniError
  | unclosedSection (line : Nat)
  | emptyKey (line : Nat)
deriving DecidableEq, Repr

/-- The message of an error. A key can be empty only where its delimiter comes first. -/
def IniError.message : IniError → String
  | .unclosedSection line =>
    "line " ++ toString line ++ ": Found opening bracket for section name but no closing bracket"
  | .emptyKey line => "line " ++ toString line ++ ":0: Key cannot be empty"

/-- A key in the section of a title, with its value if it has one. -/
structure IniEntry where
  title : String
  key : String
  value : Option String
deriving DecidableEq, Repr

namespace Ini

/-- A name without blanks at its ends, in small letters. -/
def name (cs : List Char) : String := String.ofList ((trimChars cs).map asciiSmall)

def isComment (c : Char) : Bool := c == ';' || c == '#'

def isDelimiter (c : Char) : Bool := c == '=' || c == ':'

/-- What a line says, comments and blanks at its ends apart. -/
def content (line : List Char) : List Char :=
  trimChars ((trimChars line).takeWhile fun c => !isComment c)

/-- The name between the bracket that begins a line and the last closing bracket. -/
def sectionName? (afterBracket : List Char) : Option String :=
  match afterBracket.reverse.dropWhile (· != ']') with
  | [] => none
  | _ :: inner => some (name inner.reverse)

/-- The key and the value of a line; `none` if the key is empty. -/
def keyValue? (line : List Char) : Option (String × Option String) :=
  let key := name (line.takeWhile fun c => !isDelimiter c)
  match line.dropWhile fun c => !isDelimiter c with
  | [] => some (key, none)
  | _ :: value => if key = "" then none else some (key, some (String.ofList (trimChars value)))

/-- The entries of lines, the first of which has the given number and stands in the given
section. -/
def readLines (current : String) : Nat → List (List Char) → Except IniError (List IniEntry)
  | _, [] => .ok []
  | n, line :: rest =>
    match content line with
    | [] => readLines current (n + 1) rest
    | '[' :: afterBracket =>
      match sectionName? afterBracket with
      | none => .error (.unclosedSection n)
      | some next => readLines next (n + 1) rest
    | c :: cs =>
      match keyValue? (c :: cs) with
      | none => .error (.emptyKey n)
      | some (key, value) => do
        let entries ← readLines current (n + 1) rest
        .ok (⟨current, key, value⟩ :: entries)

def lines : List Char → List (List Char)
  | [] => [[]]
  | c :: cs =>
    if c = '\n' then [] :: lines cs
    else match lines cs with
      | [] => [[c]]
      | line :: rest => (c :: line) :: rest

/-- The entries of a text. Lines before the first section belong to the section `default`. -/
def read (text : String) : Except IniError (List IniEntry) :=
  readLines "default" 1 (lines text.toList)

/-- The value of a key in a section. The last entry counts, also when it has no value. -/
def get? (entries : List IniEntry) (inSection key : String) : Option String :=
  (entries.reverse.find? fun e => e.title == inSection && e.key == key).bind (·.value)

def writeSection (title : String) (values : List (String × String)) : String :=
  "[" ++ title ++ "]\n" ++ String.join (values.map fun (key, value) => key ++ "=" ++ value ++ "\n")

end Ini

end Gameplay
