import LineCalc.Word
import LineCalc.Numeral
import LineCalc.Platform
import LineCalc.Expr

/-!
# Evaluation

Evaluating a tree gives a `Trace`: the numbers that were printed, and the value or the reason why
there is none. Operands are evaluated from left to right, and a division is checked after its
operands. Sums, differences and products wrap around; a literal is taken as it is.

The walk goes along left spines, and every other step down takes one of a limited number of levels.
-/

namespace LineCalc

/-- The value of an operation, or its fault. -/
def BinaryOp.apply : BinaryOp → Int → Int → Except Fault Int
  | .add, left, right => .ok (Word.wrap (left + right))
  | .sub, left, right => .ok (Word.wrap (left - right))
  | .mul, left, right => .ok (Word.wrap (left * right))
  | .div, left, right =>
    if right = 0 then .error .divisionByZero
    else if left = Word.minValue ∧ right = -1 then .error .divisionOverflow
    else .ok (Word.quotient left right)

/-- What an evaluation printed, and how it ended. -/
structure Trace (α : Type) where
  /-- The printed numbers, in order. -/
  printed : List Int
  /-- The result, or why there is none. -/
  outcome : Except (Failure ArithmeticError) α

namespace Trace

/-- A result without output. -/
def pure {α : Type} (a : α) : Trace α := ⟨[], .ok a⟩

/-- A failure without output. -/
def fail {α : Type} (failure : Failure ArithmeticError) : Trace α := ⟨[], .error failure⟩

/-- Go on with a result; a failure ends the evaluation. -/
def bind {α β : Type} (t : Trace α) (f : α → Trace β) : Trace β :=
  match t.outcome with
  | .error failure => ⟨t.printed, .error failure⟩
  | .ok a =>
    let rest := f a
    ⟨t.printed ++ rest.printed, rest.outcome⟩

/-- Print a number and give it as the result, if it can be written. -/
def print (value : Int) : Trace Int :=
  if Numeral.isWritable value then ⟨[value], .ok value⟩ else fail (.defect .unwritableNumber)

end Trace

/-- Apply an operator to two values. -/
def Operator.apply (o : Operator) (left right : Int) : Trace Int :=
  match o.op.apply left right with
  | .ok value => .pure value
  | .error fault => .fail (.error ⟨fault, o.position⟩)

namespace Expr

/-- Evaluate a tree with the given number of levels. -/
def evalWithin : Nat → Expr → Trace Int
  | 0, _ => .fail (.defect .tooDeep)
  | levels + 1, e =>
    match e with
    | .num literal => .pure literal.value
    | .binary left operator right =>
      let spine := leftSpine (.binary left operator right)
      spine.links.foldl
        (fun value link =>
          value.bind fun a => (evalWithin levels link.right).bind fun b => link.operator.apply a b)
        (evalWithin levels spine.base)
    | .print _ body => (evalWithin levels body).bind .print
    | .unknown name => .fail (.defect (.unknownNode name))

/-- Evaluate a tree. -/
def eval [Platform] (e : Expr) : Trace Int := evalWithin walkLimit e

end Expr

end LineCalc
