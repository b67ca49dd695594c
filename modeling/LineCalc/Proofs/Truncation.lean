import Mathlib.Algebra.Order.Group.Unbundled.Int
import Mathlib.Tactic.Ring
import LineCalc.Proofs.Word

/-!
# Reduction and truncated division

Two operations on integers of any size stand for the machine: reduction to a word, and division that
rounds toward zero. Here each is described without the way it is computed. A reduction is the word
with the same remainder modulo the number of words, and a truncated quotient is known by the
remainder that it leaves. On words the quotient is that of the machine, unless it would have to be
reduced, and the checks of a division find just these cases.

* `Word.IsTruncated`: what makes an integer the truncated quotient.
* `Word.eq_wrap_iff`: a reduction is the only word congruent to the integer.
* `Word.eq_quotient_iff`: a quotient by anything but zero is the only truncated one.
* `Word.quotient_inRange_iff`: which quotients of words are words.
* `BinaryOp.apply_div`: a division fails if there is no quotient or if the quotient is no word.
* `Word.wrap_quotient_determined`: all this as one statement.
-/

namespace LineCalc

namespace Word

/-! ### Reduction -/

/-- An integer is its own reduction only if it is a word. -/
theorem wrap_eq_self_iff {v : Int} : wrap v = v ↔ InRange v := by
  constructor
  · intro h
    rw [← h]
    exact wrap_inRange v
  · exact wrap_of_inRange

/-- The reduction of an integer is the only word congruent to it. -/
theorem eq_wrap_iff {v w : Int} : w = wrap v ↔ InRange w ∧ w ≡ v [ZMOD modulus] := by
  constructor
  · rintro rfl
    exact ⟨wrap_inRange v, wrap_modEq v⟩
  · rintro ⟨hrange, hcongr⟩
    rw [← wrap_of_inRange hrange, wrap_congr hcongr]

/-- A reduction is computed with natural remainders, counted from the least word. -/
theorem wrap_eq_emod (v : Int) : wrap v = (v - minValue) % modulus + minValue := by
  refine (eq_wrap_iff.2 ⟨?_, ?_⟩).symm
  · have hlo := Int.emod_nonneg (v - minValue) (b := modulus) (by decide)
    have hhi := Int.emod_lt_of_pos (v - minValue) (b := modulus) (by decide)
    simp only [InRange, minValue, maxValue, modulus] at *
    omega
  · simpa using (Int.mod_modEq (v - minValue) modulus).add_right minValue

/-! ### Truncated division -/

/-- An integer is the truncated quotient if what it leaves of the dividend is smaller than the
divisor and has the sign of the dividend, where it is not zero. -/
structure IsTruncated (dividend divisor q : Int) : Prop where
  /-- The remainder is smaller than the divisor. -/
  remainder_lt : |dividend - q * divisor| < |divisor|
  /-- The remainder is zero or has the sign of the dividend. -/
  remainder_sign : dividend - q * divisor = 0 ∨ (dividend - q * divisor).sign = dividend.sign

variable {dividend divisor q : Int}

/-- What the quotient leaves of the dividend is the remainder of truncated division. -/
theorem sub_quotient_mul (dividend divisor : Int) :
    dividend - quotient dividend divisor * divisor = dividend.tmod divisor := by
  rw [Int.tmod_def, quotient, mul_comm]

/-- The quotient by anything but zero is truncated. -/
theorem isTruncated_quotient (hdivisor : divisor ≠ 0) :
    IsTruncated dividend divisor (quotient dividend divisor) := by
  constructor
  · rw [sub_quotient_mul, Int.abs_eq_natAbs, Int.abs_eq_natAbs, Int.natAbs_tmod]
    exact_mod_cast Nat.mod_lt _ (Int.natAbs_pos.2 hdivisor)
  · rw [sub_quotient_mul, ← Int.sign_eq_zero_iff_zero, Int.sign_tmod]
    split_ifs
    · exact .inl rfl
    · exact .inr rfl

/-- The remainder of a dividend that is not negative is not negative. -/
theorem IsTruncated.remainder_nonneg (h : IsTruncated dividend divisor q)
    (hdividend : 0 ≤ dividend) : 0 ≤ dividend - q * divisor := by
  rcases h.remainder_sign with hzero | hsign
  · exact hzero.ge
  · rw [← Int.sign_nonneg_iff, hsign]
    exact Int.sign_nonneg_iff.2 hdividend

/-- The remainder of a dividend that is not positive is not positive. -/
theorem IsTruncated.remainder_nonpos (h : IsTruncated dividend divisor q)
    (hdividend : dividend ≤ 0) : dividend - q * divisor ≤ 0 := by
  rcases h.remainder_sign with hzero | hsign
  · exact hzero.le
  · rw [← Int.sign_nonpos_iff, hsign]
    exact Int.sign_nonpos_iff.2 hdividend

/-- The quotient by anything but zero is the only truncated one. -/
theorem eq_quotient_iff (hdivisor : divisor ≠ 0) :
    q = quotient dividend divisor ↔ IsTruncated dividend divisor q := by
  constructor
  · rintro rfl
    exact isTruncated_quotient hdivisor
  · intro h
    have hdivides : dividend - q * divisor + divisor * q = dividend := by ring
    have hlt : |dividend - q * divisor| < divisor.natAbs := by
      rw [Int.natCast_natAbs]
      exact h.remainder_lt
    obtain ⟨hlo, hhi⟩ := abs_lt.1 hlt
    -- On the side of zero where the dividend lies, a remainder below the divisor is unique.
    rcases le_total 0 dividend with hdividend | hdividend
    · have hside := h.remainder_nonneg hdividend
      exact ((Int.tdiv_tmod_unique hdividend hdivisor).2 ⟨hdivides, hside, hhi⟩).1.symm
    · have hside := h.remainder_nonpos hdividend
      exact ((Int.tdiv_tmod_unique' hdividend hdivisor).2 ⟨hdivides, hlo, hside⟩).1.symm

/-- A quotient is computed from the magnitudes, and negated if just one of the numbers is
negative. -/
theorem quotient_eq_magnitudes (dividend divisor : Int) :
    quotient dividend divisor =
      if dividend < 0 ↔ divisor < 0 then |dividend| / |divisor| else -(|dividend| / |divisor|) := by
  rw [quotient, ← Int.tdiv_eq_ediv_of_nonneg (abs_nonneg dividend)]
  -- Truncated division commutes with changing a sign, which division rounding down would not.
  by_cases hdividend : dividend < 0
  · rw [abs_of_neg hdividend]
    by_cases hdivisor : divisor < 0
    · rw [abs_of_neg hdivisor, if_pos (iff_of_true hdividend hdivisor), Int.neg_tdiv_neg]
    · rw [abs_of_nonneg (not_lt.1 hdivisor), if_neg fun h => hdivisor (h.1 hdividend),
        Int.neg_tdiv, neg_neg]
  · rw [abs_of_nonneg (not_lt.1 hdividend)]
    by_cases hdivisor : divisor < 0
    · rw [abs_of_neg hdivisor, if_neg fun h => hdividend (h.2 hdivisor), Int.tdiv_neg, neg_neg]
    · rw [abs_of_nonneg (not_lt.1 hdivisor), if_pos (iff_of_false hdividend hdivisor)]

/-! ### Quotients of words -/

/-- The quotient of words is a word, unless it is that of the least word by minus one. -/
theorem quotient_inRange_iff (hdividend : InRange dividend) :
    InRange (quotient dividend divisor) ↔ ¬(dividend = minValue ∧ divisor = -1) := by
  constructor
  · rintro hrange ⟨rfl, rfl⟩
    exact absurd hrange (by decide)
  · exact quotient_inRange hdividend

end Word

/-- A division has no result if there is no quotient or if the quotient would have to be reduced;
otherwise its result is the quotient. -/
theorem BinaryOp.apply_div {dividend divisor : Int} (hdividend : Word.InRange dividend) :
    BinaryOp.apply .div dividend divisor =
      match Word.quotient? dividend divisor with
      | none => .error .divisionByZero
      | some q => if Word.wrap q = q then .ok q else .error .divisionOverflow := by
  by_cases hdivisor : divisor = 0
  · rw [apply, Word.quotient?, if_pos hdivisor, if_pos hdivisor]
  · simp only [apply, Word.quotient?, if_neg hdivisor, Word.wrap_eq_self_iff,
      Word.quotient_inRange_iff hdividend, ite_not]

/-- Reduction and truncated division are what the machine does. A reduction, computed with a natural
remainder, is the only word that is congruent to the integer. A quotient by anything but zero,
computed from the magnitudes, is the only integer that leaves a remainder smaller than the divisor
and with the sign of the dividend. Of two words it is a word too, unless it is that of the least
word by minus one. The checks of a division refuse just this quotient and the divisor zero, and what
they let through is the signed quotient of the bit vectors. -/
theorem Word.wrap_quotient_determined (v dividend divisor : Int) :
    (wrap v = (v - minValue) % modulus + minValue ∧
      ∀ w, w = wrap v ↔ InRange w ∧ w ≡ v [ZMOD modulus]) ∧
    (divisor ≠ 0 →
      quotient? dividend divisor = some (quotient dividend divisor) ∧
      quotient dividend divisor = (if dividend < 0 ↔ divisor < 0 then |dividend| / |divisor|
        else -(|dividend| / |divisor|)) ∧
      ∀ q, q = quotient dividend divisor ↔ IsTruncated dividend divisor q) ∧
    (InRange dividend → InRange divisor →
      (¬InRange (quotient dividend divisor) ↔ dividend = minValue ∧ divisor = -1) ∧
      (BinaryOp.apply .div dividend divisor =
        match quotient? dividend divisor with
        | none => .error .divisionByZero
        | some q => if wrap q = q then .ok q else .error .divisionOverflow) ∧
      (¬(dividend = minValue ∧ divisor = -1) → quotient dividend divisor =
        ((BitVec.ofInt 32 dividend).sdiv (BitVec.ofInt 32 divisor)).toInt)) := by
  refine ⟨⟨wrap_eq_emod v, fun w => eq_wrap_iff⟩, fun hdivisor => ?_, fun hdividend hword => ?_⟩
  · exact ⟨if_neg hdivisor, quotient_eq_magnitudes dividend divisor,
      fun q => eq_quotient_iff hdivisor⟩
  · have hrange : InRange (quotient dividend divisor) ↔ ¬(dividend = minValue ∧ divisor = -1) :=
      quotient_inRange_iff hdividend
    refine ⟨by rw [hrange, not_not], BinaryOp.apply_div hdividend, fun hfits => ?_⟩
    rw [toInt_sdiv_ofInt hdividend hword, wrap_of_inRange (hrange.2 hfits)]

/-- The least word by minus three: the quotient is positive, and the remainder, minus two, is
negative as the dividend is. -/
theorem Word.wrap_quotient_determined_least :
    (-3 : Int) ≠ 0 ∧ InRange minValue ∧ InRange (-3) ∧
      wrap (maxValue + 1) = minValue ∧
      (∀ q, q = 715827882 ↔ IsTruncated minValue (-3) q) ∧
      BinaryOp.apply .div minValue (-3) = .ok 715827882 ∧
      ((BitVec.ofInt 32 minValue).sdiv (BitVec.ofInt 32 (-3))).toInt = 715827882 := by
  have hdivisor : (-3 : Int) ≠ 0 := by decide
  have hdividend : InRange minValue := by decide
  have hword : InRange (-3) := by decide
  obtain ⟨⟨-, hreduced⟩, hquotient, hwords⟩ :=
    wrap_quotient_determined (maxValue + 1) minValue (-3)
  obtain ⟨-, -, hunique⟩ := hquotient hdivisor
  obtain ⟨-, hchecked, hbits⟩ := hwords hdividend hword
  refine ⟨hdivisor, hdividend, hword, ?_, hunique, hchecked, ?_⟩
  · exact ((hreduced minValue).2 (by decide)).symm
  · exact (hbits (by decide)).symm

end LineCalc
