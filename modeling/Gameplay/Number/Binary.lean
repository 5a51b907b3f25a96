import Gameplay.Number.Power

/-!
# Binary floating-point numbers, exactly

A finite single or double is a signed whole number times a power of two. `BinaryFormat.decode`
reads that number off the bits and `BinaryFormat.encode` rounds any such number to a format:
nearest first, ties to an even significand. Every conversion between the two formats, and from
whole numbers, is that one rounding, so a converted number is always the closest one.
-/

namespace Gameplay

/-- The finite binary number `± significand * 2 ^ exponent`. -/
structure Binary where
  negative : Bool
  significand : Nat
  exponent : Int
deriving DecidableEq, Repr

namespace Binary

/-- A whole number is a binary number with exponent zero. -/
def ofInt (n : Int) : Binary := ⟨decide (n < 0), n.natAbs, 0⟩

def signed (x : Binary) : Int := if x.negative then -(x.significand : Int) else x.significand

def floor (x : Binary) : Int :=
  if 0 ≤ x.exponent then x.signed * twoTo x.exponent.toNat
  else x.signed / twoTo (-x.exponent).toNat

def ceil (x : Binary) : Int := -({ x with negative := !x.negative } : Binary).floor

def isWhole (x : Binary) : Bool :=
  0 ≤ x.exponent || x.significand % twoTo (-x.exponent).toNat == 0

/-- What division by `n`, with the quotient cut off toward zero, leaves over. It has the sign of
`x`. -/
def remainder (x : Binary) (n : Nat) : Binary :=
  if 0 ≤ x.exponent then ⟨x.negative, x.significand * twoTo x.exponent.toNat % n, 0⟩
  else ⟨x.negative, x.significand % (n * twoTo (-x.exponent).toNat), x.exponent⟩

end Binary

/-- An interchange format. The unit of its least positive number is `2 ^ (-scale)`, and
magnitudes from `infinity` on stand for no finite number. -/
structure BinaryFormat where
  fractionBits : Nat
  scale : Nat
  infinity : Nat
  signBit : Nat

namespace BinaryFormat

def double : BinaryFormat := ⟨52, 1074, 0x7ff0000000000000, 0x8000000000000000⟩

def single : BinaryFormat := ⟨23, 149, 0x7f800000, 0x80000000⟩

/-- The number that a bit pattern stands for; `none` for infinities and for what is no number. -/
def decode (f : BinaryFormat) (bits : Nat) : Option Binary :=
  let magnitude := bits % f.signBit
  if magnitude < f.infinity then
    let field := magnitude / twoTo f.fractionBits
    let fraction := magnitude % twoTo f.fractionBits
    if field = 0 then some ⟨decide (f.signBit ≤ bits), fraction, -f.scale⟩
    else some ⟨decide (f.signBit ≤ bits), fraction + twoTo f.fractionBits, field - 1 - f.scale⟩
  else none

/-- `n / 2 ^ k` rounded to nearest, ties to even. -/
def shiftRound (n k : Nat) : Nat :=
  let kept := n / twoTo k
  let dropped := 2 * (n % twoTo k)
  if dropped < twoTo k then kept
  else if dropped = twoTo k && kept % 2 == 0 then kept
  else kept + 1

/-- The bits of the number of the format closest to `x`. -/
def encode (f : BinaryFormat) (x : Binary) : Nat :=
  let sign := if x.negative then f.signBit else 0
  if x.significand = 0 then sign else
    -- the bits that the significand has too many of
    let excess : Int := (x.significand.log2 : Int) - f.fractionBits
    -- below the least normal number the unit of the format is the limit instead
    let shift := max excess (-f.scale - x.exponent)
    let rounded :=
      if 0 ≤ shift then shiftRound x.significand shift.toNat
      else x.significand * twoTo (-shift).toNat
    -- the leading bit of a normal significand, and a carry out of the rounding, raise the field
    let magnitude := (x.exponent + shift + f.scale).toNat * twoTo f.fractionBits + rounded
    sign + min magnitude f.infinity

end BinaryFormat

def Binary.ofFloat? (x : Float) : Option Binary := BinaryFormat.double.decode x.toBits.toNat

def Binary.ofFloat32? (x : Float32) : Option Binary := BinaryFormat.single.decode x.toBits.toNat

def Binary.toFloat (x : Binary) : Float := .ofBits (.ofNat (BinaryFormat.double.encode x))

def Binary.toFloat32 (x : Binary) : Float32 := .ofBits (.ofNat (BinaryFormat.single.encode x))

/-- The single closest to a double; beyond the largest single lies infinity. -/
def narrow (x : Float) : Float32 :=
  match Binary.ofFloat? x with
  | some b => b.toFloat32
  | none => if x.isNaN then 0 / 0 else if x < 0 then -1 / 0 else 1 / 0

end Gameplay
