import Mathlib.Data.Int.ModEq
import Mathlib.Tactic.SplitIfs
import LineCalc.Expr.Eval
import LineCalc.IR.Machine

/-!
# Words as bit vectors

Evaluation computes with integers that it keeps in the range of a word, the machine with bit
vectors. A word and its bit vector determine each other, and the operations correspond.

* `Word.quotient_inRange`: the only quotient of words that is no word is that of the least word by
  minus one.
* `Word.toInt_sdiv_ofInt`: dividing the bits of words divides the words and reduces the quotient.
* `Numeral.isWritable_iff`: what numbers can be written. Words can.
* `BinaryOp.wordOp?_of_apply_ok`: an operation that has a value has the same value on bit vectors.
-/

namespace LineCalc

/-- A number can be written if it has no more digits than the longest that can be. -/
theorem Numeral.isWritable_iff {v : Int} :
    isWritable v = true ↔ v.natAbs < 10 ^ maxDigits := by
  rw [isWritable, decide_eq_true_iff, Nat.length_toDigits_le_iff (by decide) (by decide)]

/-- A number is written in decimal if it is written at all. -/
theorem Numeral.eq_toString_of_write {v : Int} {text : String} (h : write v = .ok text) :
    text = toString v := by
  rw [write] at h
  split at h <;> cases h
  rfl

namespace Word

/-- A reduced integer is congruent to the integer itself. -/
theorem wrap_modEq (v : Int) : wrap v ≡ v [ZMOD modulus] := Int.bmod_emod

/-- Integers have the same reduction if they are congruent. -/
theorem wrap_congr {v w : Int} (h : v ≡ w [ZMOD modulus]) : wrap v = wrap w := by
  rw [wrap, wrap, ← Int.emod_bmod v, ← Int.emod_bmod w, h.eq]

/-- A reduced integer and the integer itself have the same bits. -/
theorem ofInt_wrap (v : Int) : BitVec.ofInt 32 (wrap v) = BitVec.ofInt 32 v := by
  apply BitVec.eq_of_toInt_eq
  simp [wrap, modulus]

/-- The bits of any integer, read as a signed number, are its reduction. -/
theorem toInt_ofInt (v : Int) : (BitVec.ofInt 32 v).toInt = wrap v := by
  simp [wrap, modulus]

/-- A word is read back from its bits. -/
theorem toInt_ofInt_of_inRange {v : Int} (h : InRange v) : (BitVec.ofInt 32 v).toInt = v := by
  rw [toInt_ofInt, wrap_of_inRange h]

/-- Words with the same bits are the same. -/
theorem ofInt_inj {v w : Int} (hv : InRange v) (hw : InRange w) :
    BitVec.ofInt 32 v = BitVec.ofInt 32 w ↔ v = w := by
  constructor
  · intro h
    rw [← toInt_ofInt_of_inRange hv, ← toInt_ofInt_of_inRange hw, h]
  · rintro rfl
    rfl

/-- Comparing the bits of words compares the words. -/
theorem beq_ofInt {v w : Int} (hv : InRange v) (hw : InRange w) :
    (BitVec.ofInt 32 v == BitVec.ofInt 32 w) = decide (v = w) := by
  by_cases h : v = w
  · simp [h]
  · rw [beq_false_of_ne fun hbits => h ((ofInt_inj hv hw).1 hbits), decide_eq_false h]

theorem zero_inRange : InRange 0 := by decide

theorem minusOne_inRange : InRange (-1) := by decide

theorem minValue_inRange : InRange minValue := by decide

/-- A word has far fewer digits than the longest number that can be written. -/
theorem natAbs_lt {v : Int} (h : InRange v) : v.natAbs < 10 ^ Numeral.maxDigits := by
  have hsmall : v.natAbs < 10 ^ 10 := by
    simp only [InRange, minValue, maxValue] at h
    omega
  exact hsmall.trans_le (Nat.pow_le_pow_right (by decide) (by decide))

/-- The only quotient of words that is no word is that of the least word by minus one. -/
theorem quotient_inRange {dividend divisor : Int} (hdividend : InRange dividend)
    (hoverflow : ¬(dividend = minValue ∧ divisor = -1)) : InRange (quotient dividend divisor) := by
  have habs : (dividend.tdiv divisor).natAbs ≤ dividend.natAbs := by
    rw [Int.natAbs_tdiv]
    exact Nat.div_le_self _ _
  simp only [InRange, quotient, minValue, maxValue] at *
  -- Only the magnitude of the least word itself is too large for a positive word.
  by_cases hleast : dividend = -2147483648
  · subst hleast
    have hdivisor : divisor ≠ -1 := fun h => hoverflow ⟨rfl, h⟩
    by_cases hone : divisor.natAbs ≤ 1
    · obtain rfl | rfl : divisor = 0 ∨ divisor = 1 := by omega
      all_goals decide
    · have hhalf : (Int.tdiv (-2147483648) divisor).natAbs ≤ 1073741824 := by
        rw [Int.natAbs_tdiv]
        exact Nat.div_le_div_left (by omega : 2 ≤ divisor.natAbs) (by decide)
      omega
  · omega

/-- The quotient of bit vectors is the reduction of the quotient of their signed readings. -/
theorem toInt_sdiv (a b : BitVec 32) :
    (a.sdiv b).toInt = wrap (quotient a.toInt b.toInt) := BitVec.toInt_sdiv a b

/-- Dividing the bits of words divides the words and reduces the quotient. -/
theorem toInt_sdiv_ofInt {dividend divisor : Int} (hdividend : InRange dividend)
    (hdivisor : InRange divisor) :
    ((BitVec.ofInt 32 dividend).sdiv (BitVec.ofInt 32 divisor)).toInt =
      wrap (quotient dividend divisor) := by
  rw [toInt_sdiv, toInt_ofInt_of_inRange hdividend, toInt_ofInt_of_inRange hdivisor]

end Word

/-- A word is printed. -/
theorem Trace.print_of_inRange {v : Int} (h : Word.InRange v) : print v = ⟨[v], .ok v⟩ :=
  if_pos (Numeral.isWritable_iff.2 (Word.natAbs_lt h))

namespace BinaryOp

/-- The value of an operation on words is a word. -/
theorem apply_inRange {op : BinaryOp} {left right value : Int} (hleft : Word.InRange left)
    (h : op.apply left right = .ok value) : Word.InRange value := by
  cases op
  case div =>
    simp only [apply] at h
    split_ifs at h with hzero hoverflow
    cases h
    exact Word.quotient_inRange hleft hoverflow
  all_goals
    cases h
    exact Word.wrap_inRange _

/-- An operation that has a value has the same value on bit vectors. -/
theorem wordOp?_of_apply_ok {op : BinaryOp} {left right value : Int} (hleft : Word.InRange left)
    (hright : Word.InRange right) (h : op.apply left right = .ok value) :
    IR.wordOp? op (BitVec.ofInt 32 left) (BitVec.ofInt 32 right) =
      some (BitVec.ofInt 32 value) := by
  cases op
  case div =>
    simp only [apply] at h
    split_ifs at h with hzero hoverflow
    cases h
    have hzeroBits : BitVec.ofInt 32 right ≠ 0 := fun hbits =>
      hzero ((Word.ofInt_inj hright Word.zero_inRange).1 hbits)
    have hoverflowBits :
        ¬(BitVec.ofInt 32 left = BitVec.intMin 32 ∧ BitVec.ofInt 32 right = -1) := fun hbits =>
      hoverflow ⟨(Word.ofInt_inj hleft Word.minValue_inRange).1 hbits.1,
        (Word.ofInt_inj hright Word.minusOne_inRange).1 hbits.2⟩
    rw [IR.wordOp?, if_neg (not_or.2 ⟨hzeroBits, hoverflowBits⟩)]
    congr 1
    apply BitVec.eq_of_toInt_eq
    rw [Word.toInt_sdiv_ofInt hleft hright, Word.toInt_ofInt]
  all_goals
    cases h
    rw [IR.wordOp?, Word.ofInt_wrap]
    simp [Int.sub_eq_add_neg, BitVec.sub_eq_add_neg, BitVec.ofInt_add, BitVec.ofInt_neg,
      BitVec.ofInt_mul]

end BinaryOp

end LineCalc
