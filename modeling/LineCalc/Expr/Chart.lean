import LineCalc.Expr.Eval

/-!
# Tree charts

A tree is displayed as a chart of named nodes: numbers by their value, operators by what they are
shown as, prints by their keyword. The walk goes along left spines like that of evaluation.
-/

namespace LineCalc

namespace Expr

/-- The chart of a tree, drawn with the given number of levels. -/
def chartWithin : Nat → Expr → Except Defect ChartNode
  | 0, _ => .error .tooDeep
  | levels + 1, e =>
    match e with
    | .num literal => return .leaf (← Numeral.write literal.value)
    | .binary left operator right => do
      let spine := leftSpine (.binary left operator right)
      let base ← chartWithin levels spine.base
      spine.links.foldlM
        (fun chart link => do
          let name ← link.operator.shown.write
          let operand ← chartWithin levels link.right
          return .pair name chart operand)
        base
    | .print _ body => do
      let child ← chartWithin levels body
      return .single printWord child
    | .unknown name => .error (.unknownNode name)

/-- The chart of a tree. -/
def chart [Platform] (e : Expr) : Except Defect ChartNode := chartWithin walkLimit e

end Expr

end LineCalc
