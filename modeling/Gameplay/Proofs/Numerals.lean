import Mathlib.Control.Basic
import Mathlib.Data.Option.Basic
import Gameplay.Number.Reader

/-!
# Numerals are read as they are written

A numeral whose fraction fits its places is spelled by its characters and by no others that it could be read
from. Every numeral that a number is written with is of this kind.

## Main results

`ofChars?_chars`: reading the characters of a strict numeral gives it back.
`strict_ofBinary`, `strict_ofInt`: the numerals of numbers are strict.
-/

namespace Gameplay

/-! ### digits -/

/-- No digit comes first. -/
def NoDigitFirst (rest : List Char) : Prop := ∀ c ∈ rest.head?, c.isDigit = false

theorem isDigit_toDigits (n : Nat) : ∀ c ∈ Nat.toDigits 10 n, c.isDigit = true := fun _ listed =>
  Nat.isDigit_of_mem_toDigits (by decide) (by decide) listed

/-- Digits are read up to the first character that is none. -/
theorem spanDigits_append {digits rest : List Char} (all : ∀ c ∈ digits, c.isDigit = true)
    (stop : NoDigitFirst rest) : spanDigits (digits ++ rest) = (digits, rest) := by
  induction digits with
  | nil =>
    cases rest with
    | nil => rfl
    | cons c rest => simp [spanDigits, stop c rfl]
  | cons c digits ih =>
    have first := all c List.mem_cons_self
    have others := ih fun d listed => all d (List.mem_cons_of_mem _ listed)
    simp [spanDigits, first, others]

theorem spanDigits_all {digits : List Char} (all : ∀ c ∈ digits, c.isDigit = true) :
    spanDigits digits = (digits, []) := by
  have none : NoDigitFirst [] := nofun
  simpa using spanDigits_append all none

theorem digitsValue_toDigits (n : Nat) : digitsValue (Nat.toDigits 10 n) = n := Nat.ofDigitChars_ten_toDigits

/-- Only zero is written with a zero as its first digit. -/
theorem toDigits_head {n : Nat} (zero : (Nat.toDigits 10 n).head? = some '0') : n = 0 := by
  induction n using Nat.strongRecOn with
  | ind n ih =>
    rw [Nat.toDigits_eq_if (by decide)] at zero
    split at zero
    next small =>
      have all : ∀ d < 10, [Nat.digitChar d].head? = some '0' → d = 0 := by decide
      exact all n small zero
    next large =>
      rw [List.head?_append, Option.or_of_isSome (by simp [Nat.toDigits_ne_nil])] at zero
      have := ih (n / 10) (by omega) zero
      omega

namespace Numeral

/-- The fraction fits the places after the point. -/
def Strict (n : Numeral) : Prop := n.fraction < tenTo n.places

/-! ### padding -/

theorem isDigit_padded (width n : Nat) : ∀ c ∈ padded width n, c.isDigit = true := by
  intro c listed
  rcases List.mem_append.mp listed with zero | digit
  · rw [List.eq_of_mem_replicate zero]
    decide
  · exact isDigit_toDigits n c digit

/-- A number that fits is written with exactly as many digits as the width. -/
theorem length_padded {width n : Nat} (fits : n < tenTo width) (some_width : width ≠ 0) :
    (padded width n).length = width := by
  have digits : (Nat.toDigits 10 n).length ≤ width :=
    (Nat.length_toDigits_le_iff (by decide) (by omega)).mpr fits
  rw [padded, List.length_append, List.length_replicate]
  omega

theorem digitsValue_padded (width n : Nat) : digitsValue (padded width n) = n := by
  change Nat.ofDigitChars 10 _ 0 = n
  rw [padded, Nat.ofDigitChars_append, Nat.ofDigitChars_replicate_zero, Nat.mul_zero]
  exact Nat.ofDigitChars_ten_toDigits

/-! ### the parts of a numeral -/

def exponentChars : Option Int → List Char
  | none => []
  | some e => 'e' :: (if e < 0 then '-' else '+') :: Nat.toDigits 10 e.natAbs

/-- An exponent is read as it is written. -/
theorem readExponentPart?_chars (exponent : Option Int) :
    readExponentPart? (exponentChars exponent) = some exponent := by
  cases exponent with
  | none => rfl
  | some e =>
    have signed : (if e < 0 then -(e.natAbs : Int) else e.natAbs) = e := by split <;> omega
    have all := spanDigits_all (isDigit_toDigits e.natAbs)
    have value := digitsValue_toDigits e.natAbs
    simp only [exponentChars]
    generalize e.natAbs = magnitude at signed all value ⊢
    cases digits : Nat.toDigits 10 magnitude with
    | nil => exact absurd digits Nat.toDigits_ne_nil
    | cons d ds =>
      rw [digits] at all value
      by_cases negative : e < 0 <;> simp only [negative, if_true, if_false] at signed <;>
        simp [readExponentPart?, readExponent?, negative, all, value, signed]

/-- The characters of the point and of the places after it. -/
def fractionChars (n : Numeral) : List Char :=
  if n.places = 0 then [] else '.' :: padded n.places n.fraction

theorem chars_eq (n : Numeral) : n.chars =
    (if n.negative then ['-'] else []) ++
      (Nat.toDigits 10 n.whole ++ (n.fractionChars ++ exponentChars n.exponent)) := by
  unfold chars fractionChars exponentChars
  cases n.exponent <;> simp

private theorem whole_digits (whole : Nat) :
    ∃ d ds, Nat.toDigits 10 whole = d :: ds ∧ d ≠ '-' ∧ (d = '0' → ds = []) := by
  cases digits_eq : Nat.toDigits 10 whole with
  | nil => exact absurd digits_eq Nat.toDigits_ne_nil
  | cons d ds =>
    refine ⟨d, ds, rfl, ?_, ?_⟩
    · rintro rfl
      have digit := isDigit_toDigits whole '-' (digits_eq ▸ List.mem_cons_self)
      cases digit
    · -- only zero begins with a zero
      rintro rfl
      have zero : whole = 0 := toDigits_head (by rw [digits_eq]; rfl)
      rw [zero] at digits_eq
      exact (List.cons.inj digits_eq).2.symm

/-- What a text spells once its sign and its whole part are read. -/
private theorem ofChars?_whole (negative : Bool) (whole : Nat) (rest : List Char) : NoDigitFirst rest →
    ofChars? ((if negative then ['-'] else []) ++ (Nat.toDigits 10 whole ++ rest)) =
      match rest with
      | '.' :: rest =>
        let (fraction, rest) := spanDigits rest
        if fraction.isEmpty then none
        else (readExponentPart? rest).bind fun exponent =>
          some ⟨negative, whole, digitsValue fraction, fraction.length, exponent⟩
      | rest => (readExponentPart? rest).bind fun exponent => some ⟨negative, whole, 0, 0, exponent⟩ := by
  intro stop
  have value := digitsValue_toDigits whole
  have span := spanDigits_append (isDigit_toDigits whole) stop
  obtain ⟨d, ds, digits_eq, digit, zero⟩ := whole_digits whole
  have allowed : (d = '0' ∧ ds = []) ∨ ¬ d = '0' := by
    by_cases first : d = '0'
    · exact .inl ⟨first, zero first⟩
    · exact .inr first
  rw [digits_eq] at value span ⊢
  rw [List.cons_append] at span
  by_cases point : ∃ tail, rest = '.' :: tail
  · obtain ⟨tail, rfl⟩ := point
    by_cases none : (spanDigits tail).1 = [] <;> cases negative <;>
      simp [ofChars?, digit, span, value, allowed, none]
  · -- this excludes the first case of the match
    have pointless : ∀ tail, rest ≠ '.' :: tail := fun tail same => point ⟨tail, same⟩
    cases negative <;> simp [ofChars?, digit, span, value, allowed]

/-- A strict numeral is read as it is written. -/
theorem ofChars?_chars {n : Numeral} (strict : n.Strict) : ofChars? n.chars = some n := by
  obtain ⟨negative, whole, fraction, places, exponent⟩ := n
  have read := readExponentPart?_chars exponent
  have stop : NoDigitFirst (exponentChars exponent) := by
    cases exponent <;> simp [NoDigitFirst, exponentChars]
  rw [chars_eq]
  by_cases none : places = 0
  · -- a numeral without a point
    subst none
    have zero : fraction = 0 := by simpa [Strict] using strict
    have same : fractionChars ⟨negative, whole, fraction, 0, exponent⟩ = [] := rfl
    rw [same, List.nil_append, ofChars?_whole _ _ _ stop, zero]
    cases exponent <;> simp_all [exponentChars]
  · -- the padding makes the places as many as they were
    have same : fractionChars ⟨negative, whole, fraction, places, exponent⟩ = '.' :: padded places fraction :=
      if_neg none
    have point : NoDigitFirst ('.' :: padded places fraction ++ exponentChars exponent) := by
      simp [NoDigitFirst]
    rw [same, ofChars?_whole _ _ _ point]
    have length := length_padded strict none
    have some_digit : padded places fraction ≠ [] := by
      rintro empty
      exact none (length.symm.trans (congrArg List.length empty))
    simp [spanDigits_append (isDigit_padded places fraction) stop, some_digit, read, digitsValue_padded, length]

/-! ### the numerals of numbers -/

theorem strict_ofInt (n : Int) : (ofInt n).Strict := Nat.one_pos

theorem strict_positional (negative : Bool) (d : Decimal) (places : Nat) :
    (positional negative d places).Strict := by
  unfold positional
  split
  · exact Nat.pow_pos (by decide)
  · exact Nat.mod_lt _ (Nat.pow_pos (by decide))

theorem strict_scientific (negative : Bool) (d : Decimal) : (scientific negative d).Strict :=
  Nat.mod_lt _ (Nat.pow_pos (by decide))

/-- Numbers are written as strict numerals. -/
theorem strict_ofBinary (layout : Layout) (x : Binary) : (ofBinary layout x).Strict := by
  unfold ofBinary
  split
  · exact Nat.pow_pos (by decide)
  · dsimp only
    split
    · exact strict_positional _ _ _
    · exact strict_scientific _ _

/-- A whole number within the words of 64 bits is read back. -/
theorem toInt?_ofInt {n : Int} (least : -(twoTo 63 : Int) ≤ n) (most : n < twoTo 64) :
    (ofInt n).toInt? = some n := by
  unfold toInt? ofInt
  by_cases negative : n < 0
  · have fits : 0 < n.natAbs ∧ n.natAbs ≤ twoTo 63 := by omega
    have same : -(n.natAbs : Int) = n := by omega
    generalize n.natAbs = magnitude at fits same ⊢
    simp [isInteger, negative, fits, same]
  · have fits : n.natAbs < twoTo 64 := by omega
    have same : (n.natAbs : Int) = n := by omega
    generalize n.natAbs = magnitude at fits same ⊢
    simp [isInteger, negative, fits, same]

end Numeral

end Gameplay
