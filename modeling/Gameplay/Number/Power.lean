/-!
# Powers of two and of ten

The units of binary and of decimal numbers.
-/

namespace Gameplay

abbrev twoTo (n : Nat) : Nat := Nat.pow 2 n

abbrev tenTo (n : Nat) : Nat := Nat.pow 10 n

end Gameplay
