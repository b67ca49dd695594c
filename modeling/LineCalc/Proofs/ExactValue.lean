import Mathlib.Data.Int.ModEq
import LineCalc.Proofs.Backends

/-!
# Wrapping at every step and wrapping once

Evaluation reduces the result of every sum, difference and product to a word, and takes a literal as
it is. Reduction is a homomorphism from the integers to the integers modulo the number of words, so
the value of a tree without divisions is the reduction of its exact value, which is computed over
the unbounded integers. What does not change the exact value does not change the value either.

* `Expr.isPolynomial`, `Expr.exactValue?`: trees of sums, differences and products, and their exact
  values.
* `Expr.Rearranges`: the operands of sums and products in another order or grouping.
* `Expr.evalTree_of_isPolynomial`: evaluation gives the exact value modulo the number of words.
* `Expr.eval_eq_wrap_exactValue`: the value is the reduction of the exact value, and rearranging
  keeps it.
-/

namespace LineCalc

/-! ### Exact values -/

namespace BinaryOp

/-- The value of an operation over the unbounded integers; division has none. -/
def exactValue? : BinaryOp → Int → Int → Option Int
  | .add, a, b => some (a + b)
  | .sub, a, b => some (a - b)
  | .mul, a, b => some (a * b)
  | .div, _, _ => none

/-- The operations whose operands may be swapped and regrouped. -/
def isCommutative : BinaryOp → Bool
  | .add | .mul => true
  | .sub | .div => false

/-- An operation with an exact value has no fault, and on operands that are congruent to others its
value is the reduction of the exact value of those. -/
theorem apply_of_exactValue {op : BinaryOp} {a b x y value : Int}
    (hexact : op.exactValue? x y = some value) (ha : a ≡ x [ZMOD Word.modulus])
    (hb : b ≡ y [ZMOD Word.modulus]) :
    op.apply a b = .ok (Word.wrap value) := by
  cases op with
  | add =>
    cases hexact
    exact congrArg Except.ok (Word.wrap_congr (ha.add hb))
  | sub =>
    cases hexact
    exact congrArg Except.ok (Word.wrap_congr (ha.sub hb))
  | mul =>
    cases hexact
    exact congrArg Except.ok (Word.wrap_congr (ha.mul hb))
  | div => cases hexact

variable {op : BinaryOp}

/-- Swapping operands keeps the exact value. -/
theorem exactValue_comm (h : op.isCommutative = true) (a b : Int) :
    op.exactValue? b a = op.exactValue? a b := by
  cases op with
  | add => exact congrArg some (Int.add_comm b a)
  | mul => exact congrArg some (Int.mul_comm b a)
  | sub | div => cases h

/-- Regrouping operands keeps the exact value. -/
theorem exactValue_assoc (h : op.isCommutative = true) (a b c : Int) :
    ((op.exactValue? b c).bind fun v => op.exactValue? a v) =
      (op.exactValue? a b).bind fun v => op.exactValue? v c := by
  cases op with
  | add => exact congrArg some (Int.add_assoc a b c).symm
  | mul => exact congrArg some (Int.mul_assoc a b c).symm
  | sub | div => cases h

end BinaryOp

namespace Expr

/-- Trees of numbers, sums, differences and products only. -/
def isPolynomial : Expr → Bool
  | .num _ => true
  | .binary left operator right => operator.op != .div && left.isPolynomial && right.isPolynomial
  | .print _ _ | .unknown _ => false

/-- The value of such a tree over the unbounded integers; other trees have none. -/
def exactValue? : Expr → Option Int
  | .num literal => some literal.value
  | .binary left operator right =>
    left.exactValue?.bind fun a => right.exactValue?.bind fun b => operator.op.exactValue? a b
  | .print _ _ | .unknown _ => none

/-- A tree has an exact value if it is made of numbers, sums, differences and products only. -/
theorem isSome_exactValue (e : Expr) : e.exactValue?.isSome = e.isPolynomial := by
  induction e with
  | num literal => rfl
  | print position body ih => rfl
  | unknown name => rfl
  | binary left operator right ihLeft ihRight =>
    rw [isPolynomial, ← ihLeft, ← ihRight, exactValue?]
    cases left.exactValue? with
    | none => simp
    | some a =>
      cases right.exactValue? with
      | none => simp
      | some b => cases operator.op <;> rfl

/-- The evaluation of a tree with an exact value does not fail and prints nothing. Its result is
congruent to the exact value, and it is the reduction of that after an operation. -/
theorem evalTree_of_isPolynomial {e : Expr} {value : Int} (h : e.exactValue? = some value) :
    ∃ result, e.evalTree = ⟨[], .ok result⟩ ∧ result ≡ value [ZMOD Word.modulus] ∧
      (e.isBinary = true → result = Word.wrap value) := by
  induction e generalizing value with
  | num literal =>
    cases h
    exact ⟨literal.value, rfl, .rfl, fun hbinary => by cases hbinary⟩
  | print position body ih => cases h
  | unknown name => cases h
  | binary left operator right ihLeft ihRight =>
    obtain ⟨x, hleft, h⟩ := Option.bind_eq_some_iff.1 h
    obtain ⟨y, hright, hexact⟩ := Option.bind_eq_some_iff.1 h
    obtain ⟨a, hevalLeft, ha, -⟩ := ihLeft hleft
    obtain ⟨b, hevalRight, hb, -⟩ := ihRight hright
    -- The operands may be literals of any size: that they are congruent is all that is needed.
    have happly := BinaryOp.apply_of_exactValue hexact ha hb
    refine ⟨Word.wrap value, ?_, Word.wrap_modEq value, fun _ => rfl⟩
    rw [evalTree, hevalLeft, hevalRight]
    simp only [Trace.bind, Operator.apply, happly, Trace.pure, List.append_nil]

/-! ### Rearranging -/

/-- One tree becomes another by swapping and regrouping the operands of sums and products, at any
places and any number of times. Where the operators stand and how they are shown may change. -/
inductive Rearranges : Expr → Expr → Prop
  | refl (e : Expr) : Rearranges e e
  | symm {e f : Expr} (h : Rearranges e f) : Rearranges f e
  | trans {e f g : Expr} (hfirst : Rearranges e f) (hsecond : Rearranges f g) : Rearranges e g
  | operands {left left' right right' : Expr} {operator operator' : Operator}
      (hop : operator'.op = operator.op) (hleft : Rearranges left left')
      (hright : Rearranges right right') :
    Rearranges (.binary left operator right) (.binary left' operator' right')
  | swap {left right : Expr} {operator operator' : Operator} (hop : operator'.op = operator.op)
      (hcomm : operator.op.isCommutative = true) :
    Rearranges (.binary left operator right) (.binary right operator' left)
  | regroup {a b c : Expr} {op : BinaryOp} {first second first' second' : Operator}
      (hfirst : first.op = op) (hsecond : second.op = op) (hfirst' : first'.op = op)
      (hsecond' : second'.op = op) (hcomm : op.isCommutative = true) :
    Rearranges (.binary (.binary a first b) second c) (.binary a first' (.binary b second' c))

namespace Rearranges

variable {e f : Expr}

/-- Rearranging keeps an operation at the root. -/
theorem isBinary_eq (h : Rearranges e f) : f.isBinary = e.isBinary := by
  induction h with
  | refl e => rfl
  | symm _ ih => exact ih.symm
  | trans _ _ ihFirst ihSecond => exact ihSecond.trans ihFirst
  | operands | swap | regroup => rfl

/-- Rearranging keeps the exact value. -/
theorem exactValue_eq (h : Rearranges e f) : f.exactValue? = e.exactValue? := by
  induction h with
  | refl e => rfl
  | symm _ ih => exact ih.symm
  | trans _ _ ihFirst ihSecond => exact ihSecond.trans ihFirst
  | operands hop _ _ ihLeft ihRight => rw [exactValue?, exactValue?, hop, ihLeft, ihRight]
  | swap hop hcomm =>
    rw [exactValue?, exactValue?, hop, Option.bind_comm]
    simp only [BinaryOp.exactValue_comm hcomm]
  | regroup hfirst hsecond hfirst' hsecond' hcomm =>
    -- With the binds in one line, only the two operations at the end differ.
    simp only [exactValue?, hfirst, hsecond, hfirst', hsecond', Option.bind_assoc]
    simp only [Option.bind_comm (BinaryOp.exactValue? _ _ _), BinaryOp.exactValue_assoc hcomm]

end Rearranges

/-- A tree of numbers, sums, differences and products is evaluated without failure, to a result that
is congruent to its exact value. After an operation, or if all literals are words, the result is the
reduction of the exact value. So no rearranging of sums and products below an operation changes
it. -/
theorem eval_eq_wrap_exactValue [Platform] {e : Expr} (hpolynomial : e.isPolynomial = true)
    (hdepth : e.depth ≤ walkLimit) :
    ∃ value result, e.exactValue? = some value ∧ e.eval = ⟨[], .ok result⟩ ∧
      result ≡ value [ZMOD Word.modulus] ∧
      (e.isBinary = true ∨ (∀ v ∈ e.literals, Word.InRange v) → result = Word.wrap value) ∧
      (e.isBinary = true → ∀ other, Rearranges e other → other.depth ≤ walkLimit →
        other.eval = ⟨[], .ok result⟩) := by
  obtain ⟨value, hexact⟩ := Option.isSome_iff_exists.1 ((isSome_exactValue e).trans hpolynomial)
  obtain ⟨result, heval, hcongr, hbinary⟩ := evalTree_of_isPolynomial hexact
  refine ⟨value, result, hexact, (eval_eq_evalTree hdepth).trans heval, hcongr, ?_, ?_⟩
  · rintro (hroot | hrange)
    · exact hbinary hroot
    · -- Without an operation the tree is a literal, which is a word by assumption.
      cases e with
      | num literal =>
        cases heval
        cases hexact
        exact (Word.wrap_of_inRange (hrange _ (List.mem_singleton_self _))).symm
      | binary left operator right => exact hbinary rfl
      | print position body => cases hexact
      | unknown name => cases hexact
  · intro hroot other hother hotherDepth
    obtain ⟨result', heval', -, hbinary'⟩ :=
      evalTree_of_isPolynomial (hother.exactValue_eq.trans hexact)
    rw [eval_eq_evalTree hotherDepth, heval', hbinary' (hother.isBinary_eq.trans hroot),
      hbinary hroot]

open scoped Platform in
/-- A product of a literal that is no word, and the same with the factors swapped: the exact value
is far out of range, and both give its reduction. -/
theorem eval_eq_wrap_exactValue_product :
    let big : Expr := .num ⟨4294967299, 4294967299, none⟩
    let sum : Expr := .binary (.num ⟨2147483647, 2147483647, none⟩) ⟨.add, .text "+", none⟩
      (.num ⟨1, 1, none⟩)
    let e : Expr := .binary big ⟨.mul, .text "*", none⟩ sum
    let swapped : Expr := .binary sum ⟨.mul, .text "*", none⟩ big
    e.isPolynomial = true ∧ e.depth ≤ walkLimit ∧ Rearranges e swapped ∧
      e.exactValue? = some 9223372043297226752 ∧ e.eval = ⟨[], .ok (-2147483648)⟩ ∧
      swapped.eval = ⟨[], .ok (-2147483648)⟩ := by
  intro big sum e swapped
  have hdepth : e.depth ≤ walkLimit := by decide
  have hswap : Rearranges e swapped := .swap rfl rfl
  obtain ⟨value, result, hexact, heval, -, hwrap, hrearranged⟩ :=
    eval_eq_wrap_exactValue (e := e) rfl hdepth
  obtain rfl : 9223372043297226752 = value := Option.some.inj (Eq.trans rfl hexact)
  obtain rfl : result = -2147483648 := hwrap (.inl rfl)
  exact ⟨rfl, hdepth, hswap, hexact, heval, hrearranged rfl swapped hswap (by decide)⟩

end Expr

end LineCalc
