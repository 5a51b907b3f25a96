import Gameplay.Number.Binary

/-!
# Random numbers

A generator with one word of state. Each draw adds an odd constant to the state, so that the state
passes through all words, and folds a product of the state into a word.
-/

namespace Gameplay

structure Random where
  state : UInt64
deriving DecidableEq, Repr

namespace Random

/-- A generator whose draws are determined by a seed. -/
def ofSeed (seed : UInt64) : Random := ⟨seed⟩

def next (r : Random) : UInt64 × Random :=
  let state := r.state + 0x2d358dccaa6c78a5
  let product := state.toNat * (state ^^^ 0x8bb84b93962eacc9).toNat
  (.ofNat (product % twoTo 64) ^^^ .ofNat (product / twoTo 64), ⟨state⟩)

/-- How often a draw may be repeated: after this many draws every state has occurred. -/
def period : Nat := twoTo 64

/-- Draws until the number is below one. -/
def unitWithin : Nat → Random → Float × Random
  | 0, r => (0, r)
  | tries + 1, r =>
    let (word, r) := r.next
    -- the rounding may reach one
    let x := (Binary.mk false (word.toNat / 2) (-63)).toFloat
    if x == 1 then unitWithin tries r else (x, r)

def unit (r : Random) : Float × Random := unitWithin period r

/-- Draws until the low half of the product of a word and `n` is at least `least`; gives the high
half. -/
def belowWithin (n least : Nat) : Nat → Random → Nat × Random
  | 0, r => (0, r)
  | tries + 1, r =>
    let (word, r) := r.next
    let product := word.toNat * n
    if product % twoTo 64 < least then belowWithin n least tries r else (product / twoTo 64, r)

/-- A natural number below `n`, for a positive `n` below `2 ^ 64`, each with the same chance. The
products whose low half is less than the remainder of `2 ^ 64` by `n` are drawn again. -/
def below (n : Nat) (r : Random) : Nat × Random :=
  belowWithin n ((twoTo 64 - n) % n) period r

/-- The whole number of 64 bits closest to a number that is rounded by `round`; zero for what is no
number. -/
def bound (round : Binary → Int) (x : Float) : Int :=
  match Binary.ofFloat? x with
  | some b => max (-(twoTo 63 : Int)) (min (round b) ((twoTo 63 : Int) - 1))
  | none => if x.isNaN then 0 else if x < 0 then -(twoTo 63 : Int) else (twoTo 63 : Int) - 1

/-- A whole number from `first` to `last`, both within 64 bits. -/
def between (first last : Int) (r : Random) : Int × Random :=
  let count := (last - first + 1).toNat
  if count = twoTo 64 then
    let (word, r) := r.next
    (word.toInt64.toInt, r)
  else
    let (n, r) := r.below count
    (first + n, r)

/-- A number between two bounds, given in either order; a whole number if so asked. If no whole
number lies between the bounds, the lower bound itself. -/
def draw (r : Random) (min max : Float) (integer : Bool) : Float × Random :=
  let (low, high) := if min ≤ max then (min, max) else (max, min)
  if integer then
    let first := bound Binary.ceil low
    let last := bound Binary.floor high
    if last < first then (low, r)
    else
      let (n, r) := r.between first last
      ((Binary.ofInt n).toFloat, r)
  else
    let (x, r) := r.unit
    (low + x * (high - low), r)

end Random

end Gameplay
