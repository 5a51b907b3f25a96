import Gameplay.Number.Shortest

/-!
# Decimal numerals

A `Numeral` is a decimal number as it is written: sign, whole part, places after the point, and
perhaps an exponent. Floating-point numbers are written with the fewest digits that read back,
either positionally throughout (`plainText`) or, as data files do, with an exponent outside a
range of sizes (`Numeral.ofFloat?`, `Numeral.ofFloat32?`).
-/

namespace Gameplay

/-- A written decimal number. The fraction is the number after the point, written with exactly
`places` digits; no places means no point. -/
structure Numeral where
  negative : Bool
  whole : Nat
  fraction : Nat
  places : Nat
  exponent : Option Int
deriving DecidableEq, Repr

namespace Numeral

/-- `n` in decimal, filled up with leading zeros to at least `width` digits. -/
def padded (width n : Nat) : List Char :=
  let digits := Nat.toDigits 10 n
  List.replicate (width - digits.length) '0' ++ digits

/-- The characters of a numeral. A positive exponent carries its sign. -/
def chars (n : Numeral) : List Char :=
  (if n.negative then ['-'] else []) ++ Nat.toDigits 10 n.whole
    ++ (if n.places = 0 then [] else '.' :: padded n.places n.fraction)
    ++ match n.exponent with
      | none => []
      | some e => 'e' :: (if e < 0 then '-' else '+') :: Nat.toDigits 10 e.natAbs

def text (n : Numeral) : String := String.ofList n.chars

def ofInt (n : Int) : Numeral := ⟨decide (n < 0), n.natAbs, 0, 0, none⟩

/-- A decimal without an exponent, with at least `places` places. -/
def positional (negative : Bool) (d : Decimal) (places : Nat) : Numeral :=
  if 0 ≤ d.exponent then ⟨negative, d.digits * tenTo d.exponent.toNat, 0, places, none⟩
  else
    let cut := tenTo (-d.exponent).toNat
    ⟨negative, d.digits / cut, d.digits % cut, (-d.exponent).toNat, none⟩

/-- A decimal with one digit before the point and an exponent. -/
def scientific (negative : Bool) (d : Decimal) : Numeral :=
  let after := (Nat.toDigits 10 d.digits).length - 1
  ⟨negative, d.digits / tenTo after, d.digits % tenTo after, after, some (d.exponent + after)⟩

/-- How data files write the numbers of a format: positionally while the exponent of the first
digit is at least `least` and less than `most`. -/
structure Layout where
  format : BinaryFormat
  least : Int
  most : Int

/-- Doubles are positional from `0.00001` to below `1e16`. -/
def doubleLayout : Layout := ⟨.double, -5, 16⟩

/-- Singles are positional from `0.000001` to below `1e13`. -/
def singleLayout : Layout := ⟨.single, -6, 13⟩

/-- The numeral of a number in a data file. A positional one always has a point. -/
def ofBinary (layout : Layout) (x : Binary) : Numeral :=
  if x.significand = 0 then ⟨x.negative, 0, 0, 1, none⟩ else
    let d := x.shortest layout.format .toEven
    let leading := d.exponent + (Nat.toDigits 10 d.digits).length - 1
    if layout.least ≤ leading ∧ leading < layout.most then positional x.negative d 1
    else scientific x.negative d

def ofFloat? (x : Float) : Option Numeral := (Binary.ofFloat? x).map (ofBinary doubleLayout)

def ofFloat32? (x : Float32) : Option Numeral := (Binary.ofFloat32? x).map (ofBinary singleLayout)

/-- The positional numeral of a number in running text; a whole number has no point. -/
def ofBinaryPlain (format : BinaryFormat) (x : Binary) : Numeral :=
  if x.significand = 0 then ⟨x.negative, 0, 0, 0, none⟩
  else positional x.negative (x.shortest format .up) 0

end Numeral

/-- The text of a double without an exponent, `NaN`, `inf` or `-inf`. -/
def plainText (x : Float) : String :=
  match Binary.ofFloat? x with
  | some b => (Numeral.ofBinaryPlain .double b).text
  | none => if x.isNaN then "NaN" else if x < 0 then "-inf" else "inf"

/-- The text of a single without an exponent, `NaN`, `inf` or `-inf`. -/
def plainText32 (x : Float32) : String :=
  match Binary.ofFloat32? x with
  | some b => (Numeral.ofBinaryPlain .single b).text
  | none => if x.isNaN then "NaN" else if x < 0 then "-inf" else "inf"

end Gameplay
