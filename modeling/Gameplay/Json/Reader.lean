import Gameplay.Json.Lexer

/-!
# Reading JSON

`Json.read?` takes the tokens of a text one by one and keeps the open containers on a stack, so a
text of any depth can be read. What depth is allowed is the business of whoever uses the value.
-/

namespace Gameplay.Json

/-- An open container, its finished parts last first. -/
inductive Open
  | array (items : List Json)
  | object (members : List (Option String × Json))
  | member (members : List (Option String × Json)) (name : Option String)

/-- What may come next. -/
inductive Expecting
  | value
  | valueOrEnd
  | nameOrEnd
  | name
  | colon (name : Option String)
  | separator
  | nothing (value : Json)

/-- A text read up to some token. -/
structure Reading where
  stack : List Open
  expecting : Expecting

def Reading.put (stack : List Open) (value : Json) : Option Reading :=
  match stack with
  | [] => some ⟨[], .nothing value⟩
  | .array items :: rest => some ⟨.array (value :: items) :: rest, .separator⟩
  | .member members name :: rest => some ⟨.object ((name, value) :: members) :: rest, .separator⟩
  | .object _ :: _ => none

def Reading.begin? (stack : List Open) : Token → Option Reading
  | .openArray => some ⟨.array [] :: stack, .valueOrEnd⟩
  | .openObject => some ⟨.object [] :: stack, .nameOrEnd⟩
  | .null => put stack .null
  | .bool b => put stack (.bool b)
  | .number n => put stack (.number n)
  | .string s => put stack (.string s)
  | _ => none

def Reading.step? (state : Reading) (token : Token) : Option Reading :=
  match state.expecting, token, state.stack with
  | .value, t, stack => begin? stack t
  | .valueOrEnd, .closeArray, .array items :: rest => put rest (.array items.reverse)
  | .valueOrEnd, t, stack => begin? stack t
  | .nameOrEnd, .closeObject, .object members :: rest => put rest (.object members.reverse)
  | .nameOrEnd, .string name, stack => some ⟨stack, .colon name⟩
  | .name, .string name, stack => some ⟨stack, .colon name⟩
  | .colon name, .colon, .object members :: rest => some ⟨.member members name :: rest, .value⟩
  | .separator, .comma, .array items :: rest => some ⟨.array items :: rest, .value⟩
  | .separator, .closeArray, .array items :: rest => put rest (.array items.reverse)
  | .separator, .comma, .object members :: rest => some ⟨.object members :: rest, .name⟩
  | .separator, .closeObject, .object members :: rest => put rest (.object members.reverse)
  | _, _, _ => none

def Reading.run (state : Reading) : List Token → Option Reading
  | [] => some state
  | t :: ts => (state.step? t).bind fun next => run next ts

def ofTokens? (tokens : List Token) : Option Json :=
  match Reading.run ⟨[], .value⟩ tokens with
  | some ⟨_, .nothing value⟩ => some value
  | _ => none

/-- The value that a text writes; `none` if it is no JSON text. -/
def read? (text : String) : Option Json := (Token.scan text.toList).bind ofTokens?

end Gameplay.Json
