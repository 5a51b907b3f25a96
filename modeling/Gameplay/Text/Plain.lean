/-!
# Plain text

A text may hold control characters, and sequences of characters that a terminal takes as commands.
`plain` keeps what is meant for a reader who has no terminal: the characters outside such sequences,
and of the control characters those that are blanks.

A sequence begins with the escape character, and the next characters say of which kind it is. Blanks
of a sequence that has no text of its own are kept. Such a blank also interrupts the sequence: the
characters after it are read as text up to the next control character, and there the sequence goes
on.
-/

namespace Gameplay

/-- The kind of sequence that a text is in the middle of. -/
inductive Sequence
  /-- No sequence: the characters are text. -/
  | outside
  /-- The escape character, and nothing after it yet. -/
  | escape
  /-- An escape sequence, which ends with its first character after the punctuation. -/
  | escapeSequence
  /-- A control sequence, which ends with a letter. -/
  | controlSequence
  /-- The head of a device control string, before any parameter. -/
  | device
  /-- The head of a device control string, in its parameters. -/
  | deviceParameters
  /-- The head of a device control string, after its parameters. -/
  | deviceSelection
  /-- A string for the terminal, up to the byte that ends strings. -/
  | string
  /-- A system command, up to the bell. -/
  | systemCommand
deriving DecidableEq, Repr

def isControlBlank (c : Char) : Bool := c == '\t' || c == '\n' || c == '\x0c' || c == '\r'

/-- Whether a character is shown where it is text: it is no control character of ASCII, or is a
blank. -/
def isShown (c : Char) : Bool := (0x20 ≤ c.toNat && c != '\x7f') || isControlBlank c

def inRange (first last c : Char) : Bool := first ≤ c && c ≤ last

namespace Sequence

/-- Whether the encoded character has the byte that ends strings. -/
def endsString (c : Char) : Bool := (String.utf8EncodeChar c).contains 0x9c

/-- What the character after the escape character begins. -/
def begin (c : Char) : Sequence :=
  if c = '[' then .controlSequence
  else if c = ']' then .systemCommand
  else if c = 'P' then .device
  else if c = 'X' ∨ c = '^' ∨ c = '_' then .string
  else if inRange ' ' '/' c then .escapeSequence
  else if inRange '0' '~' c then .outside
  else .escape

/-- Where a text is after one more character. The escape character begins a new sequence anywhere,
and the cancel and substitute characters end any sequence. -/
def next (s : Sequence) (c : Char) : Sequence :=
  if c = '\x1b' then .escape
  else if c = '\x18' ∨ c = '\x1a' then .outside
  else
    match s with
    | .outside => .outside
    | .escape => begin c
    | .escapeSequence => if inRange '0' '~' c then .outside else s
    | .controlSequence => if inRange '@' '~' c then .outside else s
    | .device =>
      if inRange ' ' '/' c then .deviceSelection
      else if inRange '0' '?' c then .deviceParameters
      else if inRange '@' '~' c then .string
      else s
    | .deviceParameters =>
      if inRange ' ' '/' c then .deviceSelection
      else if inRange '<' '~' c then .string
      else s
    | .deviceSelection => if inRange '0' '~' c then .string else s
    | .string => if endsString c then .outside else s
    | .systemCommand => if c = '\x07' then .outside else s

def keeps : Sequence → Char → Bool
  | .outside, c => isShown c
  | .escape, c => isControlBlank c
  | .escapeSequence, c => isControlBlank c
  | .controlSequence, c => isControlBlank c
  | _, _ => false

end Sequence

/-- How far a text is read: the sequence that it is in, and whether a blank has interrupted it. -/
structure Screening where
  sequence : Sequence
  interrupted : Bool
deriving DecidableEq, Repr

namespace Screening

def start : Screening := ⟨.outside, false⟩

/-- Reads one more character, and tells whether it is kept. A character beyond ASCII in an
interrupted sequence ends it. -/
def step (s : Screening) (c : Char) : Screening × Bool :=
  if s.interrupted && isShown c then
    (if c.toNat < 0x80 then s else start, true)
  else
    let kept := s.sequence.keeps c
    (⟨s.sequence.next c, kept⟩, kept)

/-- What is kept of the rest of a text. -/
def keep (s : Screening) : List Char → List Char
  | [] => []
  | c :: cs =>
    match s.step c with
    | (next, true) => c :: keep next cs
    | (next, false) => keep next cs

end Screening

/-- A text without its control sequences and control characters. -/
def plain (text : String) : String := String.ofList (Screening.start.keep text.toList)

end Gameplay
