/-!
# Blanks and letter case

The blanks are the characters with the Unicode property White_Space. Trimming takes them off both
ends of a text.
-/

namespace Gameplay

/-- The code points with the property White_Space, as inclusive ranges. -/
def blankRanges : List (Nat × Nat) :=
  [(0x09, 0x0d), (0x20, 0x20), (0x85, 0x85), (0xa0, 0xa0), (0x1680, 0x1680), (0x2000, 0x200a),
    (0x2028, 0x2029), (0x202f, 0x202f), (0x205f, 0x205f), (0x3000, 0x3000)]

def isBlank (c : Char) : Bool :=
  blankRanges.any fun (first, last) => first ≤ c.toNat && c.toNat ≤ last

def trimChars (cs : List Char) : List Char :=
  ((cs.dropWhile isBlank).reverse.dropWhile isBlank).reverse

def trim (text : String) : String := String.ofList (trimChars text.toList)

/-- The small letter of an ASCII letter, or of the Kelvin sign, which is the only other character
with an ASCII small letter of its own. Other characters stay, so a name is recognised as an ASCII
name under this map exactly if it is one under the full case map. -/
def asciiSmall (c : Char) : Char := if c = '\u212A' then 'k' else c.toLower

end Gameplay
