import Gameplay.Number.Reader
import Gameplay.Text.Blank

/-!
# Values of variables

A value is a truth value, a number or a text. A variable has a declared type, and what is stored
in it is first coerced to that type (`Value.coerce`). Comparison lets the left side decide: a
number compares numerically, anything else only for equality. `Value.change` is what the
`changeVariable` action computes before the coercion.
-/

namespace Gameplay

inductive ValueType
  | number
  | string
  | boolean
deriving DecidableEq, Repr

inductive Value
  | bool (b : Bool)
  | number (n : Float)
  | text (s : String)
deriving DecidableEq

instance : Inhabited Value := ⟨.number 0⟩

namespace Value

/-- A value as a number. Text is trimmed and read, truth is one and falsehood zero; whatever is
then no finite number counts as zero. -/
def toNumber (v : Value) : Float :=
  let n := match v with
    | .number n => n
    | .text s => (readFloat? (trim s)).getD 0
    | .bool b => if b then 1 else 0
  if n.isFinite then n else 0

/-- A value as a truth value: only `true` itself and the text `true` are true. -/
def toBool : Value → Bool
  | .bool b => b
  | .text s => s == "true"
  | .number _ => false

/-- A number as text. A whole number of at most fifteen digits has no sign of zero. -/
def numberText (n : Float) : String :=
  match Binary.ofFloat? n with
  | some b =>
    if b.isWhole && b.floor.natAbs < tenTo 15 then (Numeral.ofInt b.floor).text else plainText n
  | none => plainText n

def toText : Value → String
  | .text s => s
  | .bool b => if b then "true" else "false"
  | .number n => numberText n

def coerce (v : Value) : ValueType → Value
  | .number => .number v.toNumber
  | .boolean => .bool v.toBool
  | .string => .text v.toText

/-- Whether a value has the form that a type stores; a stored number is finite. -/
def HasType : Value → ValueType → Prop
  | .number n, .number => n.isFinite = true
  | .bool _, .boolean => True
  | .text _, .string => True
  | _, _ => False

end Value

inductive Comparison
  | eq
  | ne
  | lt
  | le
  | gt
  | ge
deriving DecidableEq, Repr

/-- Compares two numbers; what is no number differs from everything and is never less or greater. -/
def Comparison.numbers (op : Comparison) (l r : Float) : Bool :=
  match op with
  | .eq => l == r
  | .ne => l != r
  | .lt => decide (l < r)
  | .le => decide (l ≤ r)
  | .gt => decide (r < l)
  | .ge => decide (r ≤ l)

/-- Turns equality into the answer of a comparison that knows no order. -/
def Comparison.equality (op : Comparison) (equal : Bool) : Bool :=
  match op with
  | .eq => equal
  | .ne => !equal
  | _ => false

/-- Compares two values. The right side is taken in the form of the left one. -/
def Value.compare (left : Value) (op : Comparison) (right : Value) : Bool :=
  match left with
  | .number l => op.numbers l right.toNumber
  | .bool l => op.equality (l == right.toBool)
  | .text l => op.equality (l == right.toText)

/-- How `changeVariable` combines the current value with its operand. -/
inductive ChangeOp
  | set
  | add
  | subtract
  | multiply
  | divide
  | toggle
deriving DecidableEq, Repr

/-- What `changeVariable` computes for a variable of a type. Numbers are calculated with, texts
are joined by `add`, truth values are inverted by `toggle`; every other combination sets the
operand. -/
def Value.change (current : Value) (type : ValueType) (op : ChangeOp) (operand : Value) : Value :=
  match type, op with
  | _, .set => operand
  | .number, .add => .number (current.toNumber + operand.toNumber)
  | .number, .subtract => .number (current.toNumber - operand.toNumber)
  | .number, .multiply => .number (current.toNumber * operand.toNumber)
  | .number, .divide => .number (current.toNumber / operand.toNumber)
  | .number, .toggle => .number (if current.toNumber == 0 then 1 else 0)
  | .string, .add => .text (current.toText ++ operand.toText)
  | .boolean, .toggle => .bool (current != .bool true)
  | _, _ => operand

end Gameplay
