import LineCalc.Expr.Eval
import LineCalc.Expr.Chart
import LineCalc.Expr.Compile
import LineCalc.Proofs.Monad

/-!
# Walks over a tree

The walkers go along left spines with a limited number of levels. Within that limit each of them is
a plain recursion over the tree. This module says how many levels a tree needs, gives the plain
recursions, and proves the walkers equal to them.

* `Expr.depth`: the levels that a walk along left spines takes.
* `Expr.evalWithin_eq_evalTree`: evaluation is plain recursion.
* `Expr.emitWithin_eq_emitTree`: so is compilation.
* `Expr.chartWithin_eq_chartTree`: so is drawing.
* `Expr.walks_eq_recursion`: what each walk does on an operation and its operands.
-/

namespace LineCalc.Expr

open IR

/-- Trees of numbers, operations and prints only. -/
def isKnown : Expr → Bool
  | .num _ => true
  | .binary left _ right => left.isKnown && right.isKnown
  | .print _ body => body.isKnown
  | .unknown _ => false

/-- Trees with an operation at the root. -/
def isBinary : Expr → Bool
  | .binary .. => true
  | _ => false

/-- The levels that a walk takes. A left operand that is an operation itself lies on the same spine
and takes no level of its own. -/
def depth : Expr → Nat
  | .num _ | .unknown _ => 1
  | .binary left _ right =>
    max (if left.isBinary then left.depth else left.depth + 1) (right.depth + 1)
  | .print _ body => body.depth + 1

/-! ### Folding a left spine -/

section Spine

variable {β : Type} {walk tree : Expr → β} {step : β → Link → β} {levels : Nat}

/-- A fold along a left spine, from a walk at its bottom, is a recursion over the tree: it suffices
that the walk agrees with the recursion off the spine and that each step is a step of the
recursion. -/
theorem foldl_spineBelow
    (hwalk : ∀ e : Expr, e.depth ≤ levels → walk e = tree e)
    (hstep : ∀ (left : Expr) (operator : Operator) (right : Expr), right.depth ≤ levels →
      step (tree left) ⟨operator, right⟩ = tree (.binary left operator right))
    (e : Expr) (above : List Link)
    (he : (if e.isBinary then e.depth else e.depth + 1) ≤ levels + 1) :
    (e.spineBelow above).links.foldl step (walk (e.spineBelow above).base) =
      above.foldl step (tree e) := by
  -- The operations that the walk has passed wait in `above`, so the induction is over all of them.
  induction e generalizing above with
  | num literal =>
    rw [spineBelow, hwalk _ (by simpa [isBinary] using he)]
    simp
  | print position body ih =>
    rw [spineBelow, hwalk _ (by simpa [isBinary] using he)]
    simp
  | unknown name =>
    rw [spineBelow, hwalk _ (by simpa [isBinary] using he)]
    simp
  | binary left operator right ihLeft ihRight =>
    simp only [isBinary, if_true, depth, Nat.max_le] at he
    rw [spineBelow, ihLeft _ he.1, List.foldl_cons, hstep _ _ _ (by omega)]

/-- The same for the whole left spine of an operation. -/
theorem foldl_leftSpine
    (hwalk : ∀ e : Expr, e.depth ≤ levels → walk e = tree e)
    (hstep : ∀ (left : Expr) (operator : Operator) (right : Expr), right.depth ≤ levels →
      step (tree left) ⟨operator, right⟩ = tree (.binary left operator right))
    (left : Expr) (operator : Operator) (right : Expr)
    (he : (Expr.binary left operator right).depth ≤ levels + 1) :
    (leftSpine (.binary left operator right)).links.foldl step
        (walk (leftSpine (.binary left operator right)).base) =
      tree (.binary left operator right) :=
  foldl_spineBelow hwalk hstep _ [] (by simpa [isBinary] using he)

end Spine

/-! ### Evaluation -/

/-- Evaluate a tree by plain recursion. -/
def evalTree : Expr → Trace Int
  | .num literal => .pure literal.value
  | .binary left operator right =>
    left.evalTree.bind fun a => right.evalTree.bind fun b => operator.apply a b
  | .print _ body => body.evalTree.bind .print
  | .unknown name => .fail (.defect (.unknownNode name))

/-- Within the levels that a tree needs, evaluation is plain recursion. -/
theorem evalWithin_eq_evalTree {levels : Nat} {e : Expr} (h : e.depth ≤ levels) :
    e.evalWithin levels = e.evalTree := by
  induction levels generalizing e with
  | zero => cases e <;> simp [depth] at h
  | succ levels ih =>
    cases e with
    | num literal => rfl
    | unknown name => rfl
    | print position body =>
      simp only [depth] at h
      rw [evalWithin, evalTree, ih (by omega)]
    | binary left operator right =>
      -- Only the operands off the spine take a level.
      rw [evalWithin]
      apply foldl_leftSpine (fun e => ih) _ _ _ _ h
      intro left operator right hright
      rw [evalTree, ih hright]

/-- A tree that a walk can take in is evaluated by plain recursion. -/
theorem eval_eq_evalTree [Platform] {e : Expr} (h : e.depth ≤ walkLimit) : e.eval = e.evalTree :=
  evalWithin_eq_evalTree h

/-! ### Compilation -/

/-- Append the code of a tree by plain recursion. -/
def emitTree : Expr → Emit Operand
  | .num literal => pure (.const literal.value)
  | .binary left operator right => do
    let a ← left.emitTree
    let b ← right.emitTree
    Emit.operation operator.op a b
  | .print _ body => do
    let value ← body.emitTree
    Emit.print value
    pure value
  | .unknown name => throw (.unknownNode name)

/-- Within the levels that a tree needs, compilation is plain recursion. -/
theorem emitWithin_eq_emitTree {levels : Nat} {e : Expr} (h : e.depth ≤ levels) :
    e.emitWithin levels = e.emitTree := by
  induction levels generalizing e with
  | zero => cases e <;> simp [depth] at h
  | succ levels ih =>
    cases e with
    | num literal => rfl
    | unknown name => rfl
    | print position body =>
      simp only [depth] at h
      rw [emitWithin, emitTree, ih (by omega)]
    | binary left operator right =>
      rw [emitWithin, bind_foldlM]
      apply foldl_leftSpine (fun e => ih) _ _ _ _ h
      intro left operator right hright
      rw [emitTree, ih hright]

/-- A tree that a walk can take in is compiled by plain recursion. -/
theorem emit_eq_emitTree [Platform] {e : Expr} (h : e.depth ≤ walkLimit) : e.emit = e.emitTree :=
  emitWithin_eq_emitTree h

/-! ### Drawing -/

/-- The chart of a tree by plain recursion. -/
def chartTree : Expr → Except Defect ChartNode
  | .num literal => return .leaf (← Numeral.write literal.value)
  | .binary left operator right => do
    let a ← left.chartTree
    let name ← operator.shown.write
    let b ← right.chartTree
    return .pair name a b
  | .print _ body => do
    let child ← body.chartTree
    return .single printWord child
  | .unknown name => .error (.unknownNode name)

/-- Within the levels that a tree needs, drawing is plain recursion. -/
theorem chartWithin_eq_chartTree {levels : Nat} {e : Expr} (h : e.depth ≤ levels) :
    e.chartWithin levels = e.chartTree := by
  induction levels generalizing e with
  | zero => cases e <;> simp [depth] at h
  | succ levels ih =>
    cases e with
    | num literal => rfl
    | unknown name => rfl
    | print position body =>
      simp only [depth] at h
      rw [chartWithin, chartTree, ih (by omega)]
    | binary left operator right =>
      rw [chartWithin, bind_foldlM]
      apply foldl_leftSpine (fun e => ih) _ _ _ _ h
      intro left operator right hright
      rw [chartTree, ih hright]

/-- A tree that a walk can take in is drawn by plain recursion. -/
theorem chart_eq_chartTree [Platform] {e : Expr} (h : e.depth ≤ walkLimit) :
    e.chart = e.chartTree :=
  chartWithin_eq_chartTree h

/-! ### Operations -/

/-- The operands of an operation take no more levels than the operation. -/
theorem depth_operands_le (left : Expr) (operator : Operator) (right : Expr) :
    left.depth ≤ (Expr.binary left operator right).depth ∧
      right.depth ≤ (Expr.binary left operator right).depth := by
  rw [depth]
  constructor
  · split <;> omega
  · omega

/-- A walk goes along a left spine in a loop, but what it does is plain recursion: an operation is
walked by walking its left operand, then its right one, and then doing the operation on what they
gave. Evaluation prints and fails as these parts do, one after the other; compilation appends their
code to any routine and leaves what they leave if one of them fails; drawing puts both charts below
the name of the operator, which is what the operator is shown as. -/
theorem walks_eq_recursion [Platform] {e : Expr} (h : e.depth ≤ walkLimit) :
    (∀ left operator right, e = .binary left operator right →
        e.eval = (left.eval.bind fun a => right.eval.bind fun b => operator.apply a b) ∧
        (∀ routine : Builder, e.emit routine =
          (do
            let a ← left.emit
            let b ← right.emit
            Emit.operation operator.op a b : Emit Operand) routine) ∧
        e.chart =
          (do
            let a ← left.chart
            let name ← operator.shown.write
            let b ← right.chart
            return .pair name a b)) ∧
      e.eval = e.evalTree ∧ e.emit = e.emitTree ∧ e.chart = e.chartTree := by
  refine ⟨?_, eval_eq_evalTree h, emit_eq_emitTree h, chart_eq_chartTree h⟩
  rintro left operator right rfl
  obtain ⟨hleft, hright⟩ := depth_operands_le left operator right
  have hleft := Nat.le_trans hleft h
  have hright := Nat.le_trans hright h
  rw [eval_eq_evalTree h, eval_eq_evalTree hleft, eval_eq_evalTree hright, emit_eq_emitTree h,
    emit_eq_emitTree hleft, emit_eq_emitTree hright, chart_eq_chartTree h,
    chart_eq_chartTree hleft, chart_eq_chartTree hright]
  exact ⟨rfl, fun routine => rfl, rfl⟩

open scoped Platform in
/-- A chain of a division by zero, below it a print, and a node of unknown sort at its end: the
evaluation prints and meets the division, while drawing comes to the node. With a number in place of
that node the chain is drawn, each operator above its operands. -/
theorem walks_eq_recursion_unknown :
    let quotient : Expr := .binary (.print none (.num ⟨8, 8, none⟩)) ⟨.div, .text "/", none⟩
      (.num ⟨0, 0, none⟩)
    let e : Expr := .binary quotient ⟨.sub, .text "-", none⟩ (.unknown "Name")
    let known : Expr := .binary quotient ⟨.sub, .text "-", none⟩ (.num ⟨3, -3, none⟩)
    e.depth ≤ walkLimit ∧ known.depth ≤ walkLimit ∧
      e.eval = (quotient.eval.bind fun a => (Expr.unknown "Name").eval.bind fun b =>
        Operator.apply ⟨.sub, .text "-", none⟩ a b) ∧
      e.eval = ⟨[8], .error (.error ⟨.divisionByZero, none⟩)⟩ ∧
      e.chart = .error (.unknownNode "Name") ∧
      known.chart = .ok (.pair "-" (.pair "/" (.single "print" (.leaf "8")) (.leaf "0"))
        (.leaf "-3")) := by
  intro quotient e known
  have hdepth : e.depth ≤ walkLimit := by decide
  have hknownDepth : known.depth ≤ walkLimit := by decide
  obtain ⟨hbinary, heval, -, hchart⟩ := walks_eq_recursion hdepth
  obtain ⟨-, -, -, hknownChart⟩ := walks_eq_recursion hknownDepth
  exact ⟨hdepth, hknownDepth, (hbinary _ _ _ rfl).1, heval.trans rfl, hchart.trans rfl,
    hknownChart.trans rfl⟩

end LineCalc.Expr
