/-!
# Signed 32-bit words

The calculator's numbers are integers read as two's-complement words. This module holds the range of
a word, the reduction of any integer into that range, and division that rounds toward zero.

* `Word.wrap_inRange`: a reduced integer is a word.
* `Word.wrap_of_inRange`: a word is its own reduction.
-/

namespace LineCalc.Word

/-- The least word. -/
def minValue : Int := -2147483648

/-- The greatest word. -/
def maxValue : Int := 2147483647

/-- The number of words. -/
def modulus : Nat := 4294967296

/-- An integer is a word when it lies between the least and the greatest one. -/
def InRange (v : Int) : Prop := minValue ≤ v ∧ v ≤ maxValue

instance (v : Int) : Decidable (InRange v) := inferInstanceAs (Decidable (_ ∧ _))

/-- The word that agrees with `v` modulo the number of words. -/
def wrap (v : Int) : Int := v.bmod modulus

/-- The quotient rounded toward zero. -/
def quotient (dividend divisor : Int) : Int := dividend.tdiv divisor

/-- The quotient rounded toward zero; there is none for a zero divisor. -/
def quotient? (dividend divisor : Int) : Option Int :=
  if divisor = 0 then none else some (quotient dividend divisor)

/-- A reduced integer is a word. -/
theorem wrap_inRange (v : Int) : InRange (wrap v) := by
  have hlo := @Int.le_bmod v modulus (by decide)
  have hhi := @Int.bmod_lt v modulus (by decide)
  simp only [InRange, wrap, minValue, maxValue, modulus] at *
  omega

/-- A word is its own reduction. -/
theorem wrap_of_inRange {v : Int} (h : InRange v) : wrap v = v := by
  simp only [InRange, minValue, maxValue] at h
  apply Int.bmod_eq_of_le <;> simp only [modulus] <;> omega

end LineCalc.Word
