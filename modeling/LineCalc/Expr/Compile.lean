import LineCalc.Expr.Eval
import LineCalc.IR.Builder

/-!
# Compilation

A tree is compiled to instructions that compute its value in the order of evaluation. The walk goes
along left spines like that of evaluation. A `Draft` is a module that is built step by step; its
routine may still be missing or unfinished.
-/

namespace LineCalc

open IR

namespace Expr

/-- Append the code of a tree, with the given number of levels. The operand holds the value of the
tree. -/
def emitWithin : Nat → Expr → Emit Operand
  | 0, _ => throw .tooDeep
  | levels + 1, e =>
    match e with
    | .num literal => pure (.const literal.value)
    | .binary left operator right => do
      let spine := leftSpine (.binary left operator right)
      let base ← emitWithin levels spine.base
      spine.links.foldlM
        (fun value link => do
          let operand ← emitWithin levels link.right
          Emit.operation link.operator.op value operand)
        base
    | .print _ body => do
      let value ← emitWithin levels body
      Emit.print value
      pure value
    | .unknown name => throw (.unknownNode name)

section

variable [Platform]

/-- Append the code of a tree. -/
def emit (e : Expr) : Emit Operand := emitWithin walkLimit e

/-- Append the code of a tree and the end of the routine. -/
def emitRoutine (e : Expr) : Emit Unit := do
  Emit.finish (← e.emit)

/-- The module of the given name that computes a tree. -/
def compile (e : Expr) (name : String) : Except Defect Module :=
  match e.emitRoutine Builder.init with
  | (.ok _, b) => .ok ⟨name, some b.blocks⟩
  | (.error defect, _) => .error defect

end

end Expr

/-- A module under construction. -/
structure Draft where
  /-- The module's name. -/
  name : String
  /-- The routine, once it is begun. -/
  routine : Option Builder

namespace Draft

/-- A module without a routine. -/
def init (name : String) : Draft := ⟨name, none⟩

/-- Begin the routine, unless there is one. -/
def create (d : Draft) : Except Defect Unit × Draft :=
  match d.routine with
  | none => (.ok (), { d with routine := some .init })
  | some _ => (.error (.nameTaken "main"), d)

/-- Take a step of building the routine `b`. -/
def perform {α : Type} (d : Draft) (b : Builder) (step : Emit α) : Except Defect α × Draft :=
  match step b with
  | (outcome, b) => (outcome, { d with routine := some b })

section

variable [Platform]

/-- The first instruction that the code of a tree needs. -/
def firstInstr? (e : Expr) : Option Instr :=
  (e.emit Builder.init).2.blocks.head?.bind (·.code.head?)

/-- Append the code of a tree. Without a routine only a tree that needs no code has a value. -/
def visit (d : Draft) (e : Expr) : Except Defect Operand × Draft :=
  match d.routine with
  | some b => d.perform b e.emit
  | none =>
    -- The first instruction is the first step that misses the routine.
    match firstInstr? e with
    | some instr => (.error (.noRoutine instr.appending), d)
    | none => ((e.emit Builder.init).1, d)

end

/-- End the routine with the given result. -/
def finish (d : Draft) (value : Option Operand) : Except Defect Unit × Draft :=
  match d.routine, value with
  | some b, some value => d.perform b (Emit.finish value)
  | some _, none => (.error .noValue, d)
  | none, _ => (.error (.noRoutine "store"), d)

/-- The module as it stands. -/
def module (d : Draft) : Module := ⟨d.name, d.routine.map (·.blocks)⟩

end Draft

end LineCalc
