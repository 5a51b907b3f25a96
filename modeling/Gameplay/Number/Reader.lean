import Gameplay.Number.Numeral

/-!
# Reading decimal numbers

Two readers share the digits. `Numeral.ofChars?` takes the strict numerals of data files, whose
value `Numeral.toFloat?` keeps the leading digits that fit 64 bits and scales them by a power of
ten. `readFloat?` takes what a person types (`+7`, `.5`, `1.`, `inf`) and gives the closest double.
-/

namespace Gameplay

/-- The number that decimal digits stand for; no digits stand for zero. -/
def digitsValue (digits : List Char) : Nat :=
  digits.foldl (fun n c => 10 * n + (c.toNat - '0'.toNat)) 0

def spanDigits : List Char → List Char × List Char
  | [] => ([], [])
  | c :: cs =>
    if c.isDigit then
      let (digits, rest) := spanDigits cs
      (c :: digits, rest)
    else ([], c :: cs)

/-- The exponent that follows its mark: a sign, if any, and at least one digit, with nothing
after them. -/
def readExponent? (cs : List Char) : Option Int :=
  let (negative, digits) := match cs with
    | '-' :: rest => (true, rest)
    | '+' :: rest => (false, rest)
    | rest => (false, rest)
  match spanDigits digits with
  | (_ :: _, []) => some (if negative then -(digitsValue digits : Int) else digitsValue digits)
  | _ => none

/-- The optional exponent that ends a numeral. -/
def readExponentPart? : List Char → Option (Option Int)
  | [] => some none
  | 'e' :: rest => (readExponent? rest).map some
  | 'E' :: rest => (readExponent? rest).map some
  | _ => none

namespace Numeral

/-- The strict numeral that a text spells: no plus sign, no leading zero, and a digit on either
side of the point. -/
def ofChars? (cs : List Char) : Option Numeral := do
  let (negative, unsigned) := match cs with
    | '-' :: rest => (true, rest)
    | rest => (false, rest)
  let (whole, rest) := spanDigits unsigned
  guard (whole == ['0'] || (!whole.isEmpty && whole.head? != some '0'))
  match rest with
  | '.' :: rest =>
    let (fraction, rest) := spanDigits rest
    guard (!fraction.isEmpty)
    let exponent ← readExponentPart? rest
    some ⟨negative, digitsValue whole, digitsValue fraction, fraction.length, exponent⟩
  | rest =>
    let exponent ← readExponentPart? rest
    some ⟨negative, digitsValue whole, 0, 0, exponent⟩

/-- Drops last digits until `n` fits 64 bits; also gives how many it dropped. -/
def leadingDigits (n : Nat) : Nat → Nat × Nat
  | 0 => (n, 0)
  | tries + 1 =>
    if n < twoTo 64 then (n, 0)
    else
      let (kept, dropped) := leadingDigits (n / 10) tries
      (kept, dropped + 1)

/-- `x * 10 ^ exponent`, by steps of `10 ^ 308`; `none` if that is too large for a double. Three
steps bring every significand down to zero. -/
def scaleTen (x : Float) (exponent : Int) : Nat → Option Float
  | 0 => some 0
  | steps + 1 =>
    if exponent.natAbs ≤ 308 then
      let power := Float.ofScientific 1 false exponent.natAbs
      if 0 ≤ exponent then
        if (x * power).isFinite then some (x * power) else none
      else some (x / power)
    else if x == 0 then some x
    else if 0 ≤ exponent then none
    else scaleTen (x / Float.ofScientific 1 false 308) (exponent + 308) steps

def isInteger (n : Numeral) : Bool := n.places == 0 && n.exponent.isNone

/-- The whole number that the numeral writes, within the words of 64 bits. Minus zero is none. -/
def toInt? (n : Numeral) : Option Int :=
  if !n.isInteger then none
  else if n.negative then
    if 0 < n.whole ∧ n.whole ≤ twoTo 63 then some (-(n.whole : Int)) else none
  else if n.whole < twoTo 64 then some n.whole else none

/-- The significand and the power of ten of a numeral. The digits of the fraction follow those
kept of the whole part, as far as all of them fit 64 bits. -/
def significand (n : Numeral) : Nat × Int :=
  let (whole, droppedWhole) := leadingDigits n.whole (Nat.log2 n.whole)
  let all := whole * tenTo n.places + n.fraction
  let (kept, dropped) := leadingDigits all (min n.places (Nat.log2 all))
  (kept, (droppedWhole : Int) - ((n.places - dropped : Nat) : Int))

/-- The double that the numeral stands for; `none` if it is too large for one. -/
def toFloat? (n : Numeral) : Option Float :=
  match n.toInt? with
  | some i => some (Binary.ofInt i).toFloat
  | none =>
    let (kept, exponent) := n.significand
    let magnitude :=
      -- a negative whole number below the words with a sign
      if n.isInteger && exponent == 0 then some (Binary.ofInt kept).toFloat
      else scaleTen (Binary.ofInt kept).toFloat (exponent + n.exponent.getD 0) 4
    magnitude.map fun x => if n.negative then -x else x

/-- The single that the numeral stands for; `none` if it is too large for a double. -/
def toFloat32? (n : Numeral) : Option Float32 :=
  match n.toInt? with
  | some i => some (Binary.ofInt i).toFloat32
  | none => n.toFloat?.map narrow

end Numeral

/-- The double closest to `digits * 10 ^ exponent`. Beyond the largest double lies infinity. -/
def nearestFloat (digits : Nat) (exponent : Int) : Float :=
  let size : Int := (Nat.toDigits 10 digits).length + exponent
  if digits = 0 ∨ size < -330 then 0
  else if 310 < size then 1 / 0
  else if 0 ≤ exponent then Float.ofScientific digits false exponent.toNat
  else Float.ofScientific digits true (-exponent).toNat

/-- An unsigned number: digits with at most one point, at least one digit, perhaps an exponent. -/
def readUnsigned? (cs : List Char) : Option Float := do
  let (whole, rest) := spanDigits cs
  let (fraction, rest) := match rest with
    | '.' :: rest => spanDigits rest
    | rest => ([], rest)
  guard (!whole.isEmpty || !fraction.isEmpty)
  let exponent ← readExponentPart? rest
  some (nearestFloat (digitsValue (whole ++ fraction)) (exponent.getD 0 - fraction.length))

/-- The double that a text spells, blanks not allowed. -/
def readFloat? (text : String) : Option Float := do
  let (negative, unsigned) := match text.toList with
    | '-' :: rest => (true, rest)
    | '+' :: rest => (false, rest)
    | rest => (false, rest)
  let word := String.ofList (unsigned.map Char.toLower)
  let magnitude ←
    if word = "inf" ∨ word = "infinity" then some (1 / 0)
    else if word = "nan" then some (0 / 0)
    else readUnsigned? unsigned
  some (if negative then -magnitude else magnitude)

/-- The natural number below `2 ^ 64` that a text spells; a plus sign may stand before it. -/
def readWord? (text : String) : Option Nat :=
  let digits := match text.toList with
    | '+' :: rest => rest
    | rest => rest
  match spanDigits digits with
  | (_ :: _, []) => if digitsValue digits < twoTo 64 then some (digitsValue digits) else none
  | _ => none

end Gameplay
