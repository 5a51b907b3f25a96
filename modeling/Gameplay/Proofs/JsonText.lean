import Gameplay.Json.Reader
import Gameplay.Json.Writer
import Gameplay.Proofs.Numerals

/-!
# JSON text is read as it is written

The text of a value is that of its tokens, and its tokens are those of the value. Both automata are followed with
anything after the value: the lexer up to the next comma or bracket, the parser with what is left to be read.

## Main result

`read?_render`: the text of a value with strict numerals is read as this value.
-/

namespace Gameplay.Json

/-- The numerals of a value are strict. -/
inductive Strict : Json → Prop
  | null : Strict .null
  | bool (b : Bool) : Strict (.bool b)
  | number {n : Numeral} : n.Strict → Strict (.number n)
  | string (text : Option String) : Strict (.string text)
  | array {items : List Json} : (∀ item ∈ items, Strict item) → Strict (.array items)
  | object {members : List (Option String × Json)} :
      (∀ member ∈ members, Strict member.2) → Strict (.object members)

attribute [simp] Strict.null Strict.bool Strict.string

@[simp] theorem strict_text (s : String) : (Json.text s).Strict := .string _

@[simp] theorem strict_int (n : Int) : (Json.int n).Strict := .number (Numeral.strict_ofInt n)

@[simp] theorem strict_float (x : Float) : (Json.float x).Strict := by
  unfold Json.float Numeral.ofFloat?
  cases Binary.ofFloat? x with
  | none => exact .null
  | some b => exact .number (Numeral.strict_ofBinary _ b)

@[simp] theorem strict_float32 (x : Float32) : (Json.float32 x).Strict := by
  unfold Json.float32 Numeral.ofFloat32?
  cases Binary.ofFloat32? x with
  | none => exact .null
  | some b => exact .number (Numeral.strict_ofBinary _ b)

@[simp] theorem strict_array {items : List Json} :
    (Json.array items).Strict ↔ ∀ item ∈ items, item.Strict := by
  constructor
  · rintro (_ | _ | _ | _ | each)
    exact each
  · exact .array

/-- A record is strict if the values of its members are. -/
@[simp] theorem strict_record {members : List (String × Json)} :
    (Json.record members).Strict ↔ ∀ m ∈ members, m.2.Strict := by
  constructor
  · intro strict m listed
    cases strict with
    | object each => exact each (some m.1, m.2) (List.mem_map_of_mem listed)
  · intro each
    refine .object fun member listed => ?_
    obtain ⟨m, there, rfl⟩ := List.mem_map.mp listed
    exact each m there

theorem strict_orNull {α : Type} {value : α → Json} (each : ∀ a, (value a).Strict) (a : Option α) :
    (Json.orNull value a).Strict := by
  cases a with
  | none => exact .null
  | some a => exact each a

mutual

def tokens : Json → List Token
  | .null => [.null]
  | .bool b => [.bool b]
  | .number n => [.number n]
  | .string s => [.string s]
  | .array items => .openArray :: (itemTokens items ++ [.closeArray])
  | .object members => .openObject :: (memberTokens members ++ [.closeObject])

def itemTokens : List Json → List Token
  | [] => []
  | [item] => tokens item
  | item :: next :: rest => tokens item ++ .comma :: itemTokens (next :: rest)

def memberTokens : List (Option String × Json) → List Token
  | [] => []
  | [(name, value)] => .string name :: .colon :: tokens value
  | (name, value) :: next :: rest =>
    .string name :: .colon :: (tokens value ++ .comma :: memberTokens (next :: rest))

end

/-! ### the lexer -/

/-- A character that ends a word or a numeral. -/
def IsDelimiter (c : Char) : Prop := c = ',' ∨ c = ']' ∨ c = '\x7d'

/-- Nothing comes next, or a delimiter. -/
def Delimited (rest : List Char) : Prop := ∀ c ∈ rest.head?, IsDelimiter c

theorem delimited_cons {c : Char} (delimiter : IsDelimiter c) (rest : List Char) : Delimited (c :: rest) := by
  intro d first
  cases first
  exact delimiter

/-- A token that is finished by what comes next. -/
private theorem scan_closed {state : Lexing} {tokens found : List Token} {rest : List Char}
    (closes : state.close? = some tokens) (stop : Delimited rest)
    (leaves : ∀ c, IsDelimiter c → state.step? c = (do
      let done ← state.close?
      let (next, more) ← Lexing.start? c
      some (next, done ++ more))) :
    Token.scanFrom state found rest = Token.scanFrom .between (tokens.reverse ++ found) rest := by
  cases rest with
  | nil =>
    -- the end of the text finishes the token as well
    have nothing : Lexing.between.close? = some [] := rfl
    simp [Token.scanFrom, closes, nothing]
  | cons c rest =>
    have next := leaves c (stop c rfl)
    have starts : Lexing.between.step? c = Lexing.start? c := rfl
    rw [closes] at next
    rw [Token.scanFrom, Token.scanFrom, next, starts]
    cases Lexing.start? c <;> simp

/-- A word is scanned as its token, whatever delimiter follows. -/
private theorem scan_word {letters : List Char} {token : Token} {found : List Token} {rest : List Char}
    (spells : wordToken? letters = some token) (stop : Delimited rest) :
    Token.scanFrom (.word letters) found rest = Token.scanFrom .between (token :: found) rest := by
  have closes : (Lexing.word letters).close? = some [token] := by simp [Lexing.close?, spells]
  refine scan_closed closes stop fun c delimiter => ?_
  rcases delimiter with rfl | rfl | rfl <;> rfl

private theorem scan_number {digits : List Char} {n : Numeral} {found : List Token} {rest : List Char}
    (spells : Numeral.ofChars? digits.reverse = some n) (stop : Delimited rest) :
    Token.scanFrom (.number digits) found rest = Token.scanFrom .between (.number n :: found) rest := by
  have closes : (Lexing.number digits).close? = some [.number n] := by simp [Lexing.close?, spells]
  refine scan_closed closes stop fun c delimiter => ?_
  rcases delimiter with rfl | rfl | rfl <;> rfl

/-- Characters of a numeral are collected one after the other. -/
private theorem scan_digits {chars : List Char} (numeric : ∀ c ∈ chars, isNumeric c = true) (before : List Char)
    (found : List Token) (rest : List Char) :
    Token.scanFrom (.number before) found (chars ++ rest) =
      Token.scanFrom (.number (chars.reverse ++ before)) found rest := by
  induction chars generalizing before with
  | nil => rfl
  | cons c chars ih =>
    have first := numeric c List.mem_cons_self
    have others := ih (fun d listed => numeric d (List.mem_cons_of_mem _ listed)) (c :: before)
    simpa [Token.scanFrom, Lexing.step?, first] using others

/-! ### strings -/

private theorem hexDigit?_hexChar : ∀ n < 16, hexDigit? (hexChar n) = some n := by decide

/-- What is read of an escaped character is the character. -/
private theorem scan_escape (c : Char) (before : List Char) (found : List Token) (rest : List Char) :
    Token.scanFrom (.string ⟨before, true, none⟩) found (escape c ++ rest) =
      Token.scanFrom (.string ⟨c :: before, true, none⟩) found rest := by
  by_cases named : c = '"' ∨ c = '\\' ∨ c = '\x08' ∨ c = '\x0c' ∨ c = '\n' ∨ c = '\r' ∨ c = '\t'
  · rcases named with rfl | rfl | rfl | rfl | rfl | rfl | rfl <;> rfl
  simp only [not_or] at named
  by_cases control : c.toNat < 0x20
  · -- the code of a control character has two digits, and is no half of a surrogate pair
    have high := hexDigit?_hexChar (c.toNat / 16) (by omega)
    have low := hexDigit?_hexChar (c.toNat % 16) (by omega)
    have zero : hexDigit? '0' = some 0 := rfl
    have unit : 16 * (c.toNat / 16) + c.toNat % 16 = c.toNat := by omega
    have plain : ¬ (0xdc00 ≤ c.toNat ∧ c.toNat < 0xe000) ∧ ¬ (0xd800 ≤ c.toNat ∧ c.toNat < 0xdc00) := by
      omega
    simp [escape, named, control, Token.scanFrom, Lexing.step?, zero, high, low, unit, Partial.pushUnit, plain,
      Partial.push]
  · simp [escape, named, control, Token.scanFrom, Lexing.step?, Partial.push]

private theorem scan_text (chars before : List Char) (found : List Token) (rest : List Char) :
    Token.scanFrom (.string ⟨before, true, none⟩) found (chars.flatMap escape ++ '"' :: rest) =
      Token.scanFrom .between (.string (some (String.ofList (before.reverse ++ chars))) :: found) rest := by
  induction chars generalizing before with
  | nil => simp [Token.scanFrom, Lexing.step?, Partial.finish]
  | cons c chars ih => simp [scan_escape, ih]

/-- A string in quotes is scanned as a string. -/
private theorem scan_quote (text : Option String) (found : List Token) (rest : List Char) :
    Token.scanFrom .between found (quote text ++ rest) = Token.scanFrom .between (.string text :: found) rest := by
  cases text with
  | none => rfl
  | some s =>
    have text := scan_text s.toList [] found rest
    rw [List.reverse_nil, List.nil_append, String.ofList_toList] at text
    simpa [quote, Token.scanFrom, Lexing.step?, Lexing.start?, Partial.empty] using text

/-! ### numerals -/

private theorem isNumeric_digit {c : Char} (digit : c.isDigit = true) : isNumeric c = true := by
  simp [isNumeric, digit]

/-- A numeral is written in characters of numerals only. -/
theorem isNumeric_chars (n : Numeral) : ∀ c ∈ n.chars, isNumeric c = true := by
  intro c listed
  rw [Numeral.chars_eq, List.mem_append, List.mem_append, List.mem_append] at listed
  rcases listed with sign | whole | fraction | exponent
  · -- there is a sign only before a negative numeral
    split at sign
    · rw [List.mem_singleton.mp sign]
      rfl
    · cases sign
  · exact isNumeric_digit (isDigit_toDigits _ c whole)
  · unfold Numeral.fractionChars at fraction
    split at fraction
    · cases fraction
    · rcases List.mem_cons.mp fraction with rfl | digit
      · rfl
      · exact isNumeric_digit (Numeral.isDigit_padded _ _ c digit)
  · unfold Numeral.exponentChars at exponent
    split at exponent
    · cases exponent
    · rcases List.mem_cons.mp exponent with rfl | signed
      · rfl
      rcases List.mem_cons.mp signed with rfl | digit
      · split <;> rfl
      · exact isNumeric_digit (isDigit_toDigits _ c digit)

/-- The first character of a numeral starts it. -/
private theorem chars_start (n : Numeral) :
    ∃ c cs, n.chars = c :: cs ∧ Lexing.start? c = some (.number [c], []) := by
  rw [Numeral.chars_eq]
  cases n.negative with
  | true => exact ⟨'-', _, rfl, rfl⟩
  | false =>
    cases digits : Nat.toDigits 10 n.whole with
    | nil => exact absurd digits Nat.toDigits_ne_nil
    | cons d ds =>
      refine ⟨d, _, rfl, ?_⟩
      -- a digit is none of the characters with a meaning of their own
      have digit := isDigit_toDigits n.whole d (digits ▸ List.mem_cons_self)
      have other : ∀ c : Char, c.isDigit = false → d ≠ c := by
        rintro c no rfl
        rw [digit] at no
        cases no
      simp [Lexing.start?, digit, other ' ', other '\n', other '\t', other '\r', other '[', other ']', other '\x7b',
        other '\x7d', other ',', other ':', other '"']

/-- A strict numeral is scanned as a number. -/
private theorem scan_numeral {n : Numeral} (strict : n.Strict) (found : List Token) {rest : List Char}
    (stop : Delimited rest) :
    Token.scanFrom .between found (n.chars ++ rest) = Token.scanFrom .between (.number n :: found) rest := by
  obtain ⟨c, cs, chars, starts⟩ := chars_start n
  have spells : Numeral.ofChars? (cs.reverse ++ [c]).reverse = some n := by
    simpa [chars] using Numeral.ofChars?_chars strict
  have numeric : ∀ d ∈ cs, isNumeric d = true := fun d listed =>
    isNumeric_chars n d (chars ▸ List.mem_cons_of_mem _ listed)
  have digits := scan_digits numeric [c] found rest
  rw [scan_number spells stop] at digits
  simpa [chars, Token.scanFrom, Lexing.step?, starts] using digits

/-! ### values -/

/-- The lexer takes the text of a value for its tokens, whatever it has found before. -/
private def Scans (j : Json) : Prop :=
  ∀ (found : List Token) (rest : List Char), Delimited rest →
    Token.scanFrom .between found (j.chars ++ rest) = Token.scanFrom .between (j.tokens.reverse ++ found) rest

/-- A character that is a token of its own. -/
private theorem scan_mark {c : Char} {token : Token} (starts : Lexing.start? c = some (.between, [token]))
    (found : List Token) (rest : List Char) :
    Token.scanFrom .between found (c :: rest) = Token.scanFrom .between (token :: found) rest := by
  simp [Token.scanFrom, Lexing.step?, starts]

/-- Items are scanned one after the other, with the commas between them. -/
private theorem scan_items {items : List Json} (each : ∀ item ∈ items, Scans item) (found : List Token)
    {rest : List Char} (stop : Delimited rest) :
    Token.scanFrom .between found (itemChars items ++ rest) =
      Token.scanFrom .between ((itemTokens items).reverse ++ found) rest := by
  induction items generalizing found with
  | nil => rfl
  | cons item items ih =>
    have first := each item List.mem_cons_self found
    cases items with
    | nil => exact first rest stop
    | cons next items =>
      -- the comma ends the first item
      have comma : Lexing.start? ',' = some (.between, [.comma]) := rfl
      have others := ih fun j listed => each j (List.mem_cons_of_mem _ listed)
      simp [itemChars, itemTokens, first (',' :: _) (delimited_cons (.inl rfl) _), scan_mark comma, others]

private theorem scan_members {members : List (Option String × Json)}
    (each : ∀ member ∈ members, Scans member.2) (found : List Token) {rest : List Char} (stop : Delimited rest) :
    Token.scanFrom .between found (memberChars members ++ rest) =
      Token.scanFrom .between ((memberTokens members).reverse ++ found) rest := by
  have colon : Lexing.start? ':' = some (.between, [.colon]) := rfl
  have comma : Lexing.start? ',' = some (.between, [.comma]) := rfl
  induction members generalizing found with
  | nil => rfl
  | cons member members ih =>
    obtain ⟨name, value⟩ := member
    have first (found) := each (name, value) List.mem_cons_self found
    cases members with
    | nil => simp [memberChars, memberTokens, scan_quote, scan_mark colon, first _ rest stop]
    | cons next members =>
      have others := ih fun member listed => each member (List.mem_cons_of_mem _ listed)
      simp [memberChars, memberTokens, scan_quote, scan_mark colon,
        first _ (',' :: _) (delimited_cons (.inl rfl) _), scan_mark comma, others]

theorem scan_chars {j : Json} (strict : j.Strict) : Scans j := by
  -- the marks around the parts of a container are tokens of one character
  have openArray : Lexing.start? '[' = some (.between, [.openArray]) := rfl
  have closeArray : Lexing.start? ']' = some (.between, [.closeArray]) := rfl
  have openObject : Lexing.start? '\x7b' = some (.between, [.openObject]) := rfl
  have closeObject : Lexing.start? '\x7d' = some (.between, [.closeObject]) := rfl
  induction strict with
  | null =>
    intro found rest stop
    have letters : wordToken? ['l', 'l', 'u', 'n'] = some .null := rfl
    exact scan_word letters stop
  | bool b =>
    intro found rest stop
    cases b with
    | true =>
      have letters : wordToken? ['e', 'u', 'r', 't'] = some (.bool true) := rfl
      exact scan_word letters stop
    | false =>
      have letters : wordToken? ['e', 's', 'l', 'a', 'f'] = some (.bool false) := rfl
      exact scan_word letters stop
  | number strict => exact fun found _ stop => scan_numeral strict found stop
  | string text => exact fun found rest _ => scan_quote text found rest
  | array _ each =>
    intro found rest _
    have items (found) := scan_items each found (delimited_cons (.inr (.inl rfl)) rest)
    simp [chars, tokens, scan_mark openArray, items, scan_mark closeArray]
  | object _ each =>
    intro found rest _
    have members (found) := scan_members each found (delimited_cons (.inr (.inr rfl)) rest)
    simp [chars, tokens, scan_mark openObject, members, scan_mark closeObject]

/-! ### the parser -/

/-- The parser takes the tokens of a value for the value, wherever one may stand. -/
private def Parses (j : Json) : Prop :=
  ∀ (stack : List Open) (rest : List Token),
    Reading.run ⟨stack, .value⟩ (j.tokens ++ rest) = (Reading.put stack j).bind fun next => next.run rest

/-- No value begins with the end of an array, so the first item of one is taken as any other value. -/
private theorem run_first (item : Json) (items : List Json) (stack : List Open) (rest : List Token) :
    Reading.run ⟨stack, .valueOrEnd⟩ (itemTokens (item :: items) ++ rest) =
      Reading.run ⟨stack, .value⟩ (itemTokens (item :: items) ++ rest) := by
  cases items <;> cases item <;> rfl

/-- No name is the end of an object, so the first member of one is taken as any other. -/
private theorem run_first_member (member : Option String × Json) (members : List (Option String × Json))
    (stack : List Open) (rest : List Token) :
    Reading.run ⟨stack, .nameOrEnd⟩ (memberTokens (member :: members) ++ rest) =
      Reading.run ⟨stack, .name⟩ (memberTokens (member :: members) ++ rest) := by
  cases members <;> rfl

/-- Items are parsed one after the other into the open array. -/
private theorem run_items {item : Json} {items : List Json} (each : ∀ j ∈ item :: items, Parses j)
    (before : List Json) (stack : List Open) (rest : List Token) :
    Reading.run ⟨.array before :: stack, .value⟩ (itemTokens (item :: items) ++ .closeArray :: rest) =
      (Reading.put stack (.array (before.reverse ++ item :: items))).bind fun next => next.run rest := by
  induction items generalizing item before with
  | nil =>
    have first := each item List.mem_cons_self (.array before :: stack) (.closeArray :: rest)
    simpa [itemTokens, Reading.put, Reading.run, Reading.step?] using first
  | cons next items ih =>
    have first := each item List.mem_cons_self (.array before :: stack)
      (.comma :: (itemTokens (next :: items) ++ .closeArray :: rest))
    have others := ih (fun j listed => each j (List.mem_cons_of_mem _ listed)) (item :: before)
    simpa [itemTokens, Reading.put, Reading.run, Reading.step?, others] using first

private theorem run_members {name : Option String} {value : Json} {members : List (Option String × Json)}
    (each : ∀ member ∈ (name, value) :: members, Parses member.2) (before : List (Option String × Json))
    (stack : List Open) (rest : List Token) :
    Reading.run ⟨.object before :: stack, .name⟩
        (memberTokens ((name, value) :: members) ++ .closeObject :: rest) =
      (Reading.put stack (.object (before.reverse ++ (name, value) :: members))).bind fun next => next.run rest := by
  induction members generalizing name value before with
  | nil =>
    have first := each (name, value) List.mem_cons_self (.member before name :: stack) (.closeObject :: rest)
    simpa [memberTokens, Reading.put, Reading.run, Reading.step?] using first
  | cons next members ih =>
    obtain ⟨nextName, nextValue⟩ := next
    have first := each (name, value) List.mem_cons_self (.member before name :: stack)
      (.comma :: (memberTokens ((nextName, nextValue) :: members) ++ .closeObject :: rest))
    have others := ih (fun j listed => each j (List.mem_cons_of_mem _ listed)) ((name, value) :: before)
    simpa [memberTokens, Reading.put, Reading.run, Reading.step?, others] using first

/-- The tokens of a strict value are parsed as the value. -/
theorem run_tokens {j : Json} (strict : j.Strict) : Parses j := by
  induction strict with
  | null => exact fun _ _ => rfl
  | bool _ => exact fun _ _ => rfl
  | number _ => exact fun _ _ => rfl
  | string _ => exact fun _ _ => rfl
  | @array items _ each =>
    intro stack rest
    cases items with
    | nil => simp [tokens, itemTokens, Reading.run, Reading.step?, Reading.begin?]
    | cons item items =>
      -- the list on the stack collects the items, the latest first; there is none yet
      have all := run_items each [] stack rest
      rw [← run_first] at all
      simpa [tokens, Reading.run, Reading.step?, Reading.begin?] using all
  | @object members _ each =>
    intro stack rest
    cases members with
    | nil => simp [tokens, memberTokens, Reading.run, Reading.step?, Reading.begin?]
    | cons member members =>
      have all := run_members each [] stack rest
      rw [← run_first_member] at all
      simpa [tokens, Reading.run, Reading.step?, Reading.begin?] using all

/-- The text of a value is read as this value. -/
theorem read?_render {j : Json} (strict : j.Strict) : read? j.render = some j := by
  have text := scan_chars strict [] [] nofun
  have value := run_tokens strict [] []
  simp only [List.append_nil] at text value
  rw [read?, render, String.toList_ofList, Token.scan, text]
  simp [Token.scanFrom, Lexing.close?, ofTokens?, value, Reading.put, Reading.run]

end Gameplay.Json
