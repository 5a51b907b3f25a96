import Gameplay.Json.Basic

/-!
# Tokens of JSON text

`Token.scan` splits a text into tokens with an automaton that looks at each character once. The
automaton accepts exactly the tokens of strict JSON: no comments, no leading zeros, no control
characters in strings, no names beyond the three literals.
-/

namespace Gameplay.Json

inductive Token
  | openArray
  | closeArray
  | openObject
  | closeObject
  | comma
  | colon
  | null
  | bool (b : Bool)
  | number (n : Numeral)
  | string (text : Option String)

/-- The text of a string as far as it is read: the characters, last first; whether all of it is
Unicode so far; and the first half of a surrogate pair that waits for its second half. -/
structure Partial where
  chars : List Char
  valid : Bool
  high : Option Nat

namespace Partial

def empty : Partial := ⟨[], true, none⟩

/-- Appends a character. A waiting first half is then alone. -/
def push (t : Partial) (c : Char) : Partial := ⟨c :: t.chars, t.valid && t.high.isNone, none⟩

def pushUnit (t : Partial) (unit : Nat) : Partial :=
  if 0xdc00 ≤ unit ∧ unit < 0xe000 then
    match t.high with
    | some high =>
      ⟨Char.ofNat (0x10000 + (high - 0xd800) * 0x400 + (unit - 0xdc00)) :: t.chars, t.valid, none⟩
    | none => { t with valid := false }
  else if 0xd800 ≤ unit ∧ unit < 0xdc00 then ⟨t.chars, t.valid && t.high.isNone, some unit⟩
  else t.push (Char.ofNat unit)

def finish (t : Partial) : Option String :=
  if t.valid && t.high.isNone then some (String.ofList t.chars.reverse) else none

end Partial

/-- What the automaton is in the middle of. -/
inductive Lexing
  | between
  | word (letters : List Char)
  | number (chars : List Char)
  | string (text : Partial)
  | escape (text : Partial)
  | hex (text : Partial) (digits : Nat) (unit : Nat)

def hexDigit? (c : Char) : Option Nat :=
  if c.isDigit then some (c.toNat - '0'.toNat)
  else if 'a' ≤ c ∧ c ≤ 'f' then some (c.toNat - 'a'.toNat + 10)
  else if 'A' ≤ c ∧ c ≤ 'F' then some (c.toNat - 'A'.toNat + 10)
  else none

/-- The character that a one-letter escape stands for. -/
def escaped? : Char → Option Char
  | '"' => some '"'
  | '\\' => some '\\'
  | '/' => some '/'
  | 'b' => some '\x08'
  | 'f' => some '\x0c'
  | 'n' => some '\n'
  | 'r' => some '\r'
  | 't' => some '\t'
  | _ => none

/-- The token that a finished word spells; `letters` has the last one first. -/
def wordToken? (letters : List Char) : Option Token :=
  if letters.reverse = ['n', 'u', 'l', 'l'] then some .null
  else if letters.reverse = ['t', 'r', 'u', 'e'] then some (.bool true)
  else if letters.reverse = ['f', 'a', 'l', 's', 'e'] then some (.bool false)
  else none

def isNumeric (c : Char) : Bool :=
  c.isDigit || c == '-' || c == '+' || c == '.' || c == 'e' || c == 'E'

/-- Starts on a character outside any token. -/
def Lexing.start? (c : Char) : Option (Lexing × List Token) :=
  if c = ' ' ∨ c = '\n' ∨ c = '\t' ∨ c = '\r' then some (.between, [])
  else if c = '[' then some (.between, [.openArray])
  else if c = ']' then some (.between, [.closeArray])
  else if c = '\x7b' then some (.between, [.openObject])
  else if c = '\x7d' then some (.between, [.closeObject])
  else if c = ',' then some (.between, [.comma])
  else if c = ':' then some (.between, [.colon])
  else if c = '"' then some (.string .empty, [])
  else if c = '-' ∨ c.isDigit then some (.number [c], [])
  else if c.isAlpha then some (.word [c], [])
  else none

/-- The token that ends where no further character belongs to it. -/
def Lexing.close? : Lexing → Option (List Token)
  | .between => some []
  | .word letters => (wordToken? letters).map ([·])
  | .number chars => (Numeral.ofChars? chars.reverse).map ([.number ·])
  | _ => none

/-- Takes one more character; gives the tokens that ended with or before it. -/
def Lexing.step? (state : Lexing) (c : Char) : Option (Lexing × List Token) :=
  match state with
  | .between => Lexing.start? c
  | .word letters =>
    if c.isAlpha then some (.word (c :: letters), [])
    else do
      let done ← Lexing.close? (.word letters)
      let (next, more) ← Lexing.start? c
      some (next, done ++ more)
  | .number chars =>
    if isNumeric c then some (.number (c :: chars), [])
    else do
      let done ← Lexing.close? (.number chars)
      let (next, more) ← Lexing.start? c
      some (next, done ++ more)
  | .string t =>
    if c = '"' then some (.between, [.string t.finish])
    else if c = '\\' then some (.escape t, [])
    else if c.toNat < 0x20 then none
    else some (.string (t.push c), [])
  | .escape t =>
    if c = 'u' then some (.hex t 0 0, [])
    else (escaped? c).map fun c => (.string (t.push c), [])
  | .hex t digits unit => do
    let digit ← hexDigit? c
    let unit := 16 * unit + digit
    if digits = 3 then some (.string (t.pushUnit unit), []) else some (.hex t (digits + 1) unit, [])

/-- The tokens of the rest of a text, after those already found; `found` has the last one first. -/
def Token.scanFrom (state : Lexing) (found : List Token) : List Char → Option (List Token)
  | [] => state.close?.map fun last => found.reverse ++ last
  | c :: cs =>
    match state.step? c with
    | none => none
    | some (next, tokens) => Token.scanFrom next (tokens.reverse ++ found) cs

/-- The tokens of a text; `none` if a part of it is no token. -/
def Token.scan (text : List Char) : Option (List Token) := Token.scanFrom .between [] text

end Gameplay.Json
