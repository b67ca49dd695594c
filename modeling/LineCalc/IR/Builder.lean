import LineCalc.Word
import LineCalc.IR.Module
import LineCalc.IR.Names

/-!
# Building a routine

A `Builder` appends instructions to the current block of a routine. A guard ends that block with a
branch to a block that returns a status, and goes on in a new block. A block is ended once: a second
end is refused, though what was named and appended before it stays.

The library that builds the code is not part of the calculator. A `Builder` stands for it, and what
is assumed of the library is the order in which it names and appends the parts of an instruction or
a guard.
-/

namespace LineCalc.IR

/-- A routine under construction. -/
structure Builder where
  /-- The names given so far. -/
  names : Names
  /-- The blocks before the current one. -/
  before : Array Block
  /-- The label of the current block. -/
  label : String
  /-- The instructions of the current block. -/
  code : Array Instr
  /-- The blocks after the current one, left by guards that were refused. -/
  after : Array Block

/-- A step of building a routine that gives an `α` or fails, and leaves a builder in either case. -/
abbrev Emit (α : Type) := ExceptT Defect (StateM Builder) α

namespace Builder

/-- A routine with one empty block. The first number goes to the value that the routine returns. -/
def init : Builder :=
  let (label, names) := Names.init.skip.fresh "entry"
  ⟨names, #[], label, #[], #[]⟩

/-- The blocks built so far. -/
def blocks (b : Builder) : List Block :=
  (b.before.push ⟨b.label, b.code.toList⟩ ++ b.after).toList

/-- Whether the current block has its end already. -/
def isEnded (b : Builder) : Bool := b.code.any Instr.isTerminator

/-- What the labels of a guard start with: the guarded block's label, cut if it is long. -/
def stem (label : String) : String :=
  if 50 < label.length then String.ofList (label.toList.take 25) ++ ".." else label

/-- The name for the result of an operation. -/
def resultName : BinaryOp → String
  | .add => "tmpadd"
  | .sub => "tmpsub"
  | .mul => "tmpmul"
  | .div => "tmpdiv"

end Builder

namespace Emit

/-- Append an instruction that sets a register, named after `base`. -/
def define (base : String) (instr : String → Instr) : Emit Operand := fun b =>
  let (name, names) := b.names.fresh base
  (.ok (.register name), { b with names, code := b.code.push (instr name) })

/-- Append an instruction that sets no register and does not end the block. -/
def effect (instr : Instr) : Emit Unit := fun b =>
  (.ok (), { b with names := b.names.skip, code := b.code.push instr })

/-- End the current block. -/
def terminate (instr : Instr) : Emit Unit := fun b =>
  if b.isEnded then (.error .blockEnded, { b with names := b.names.skip })
  else (.ok (), { b with names := b.names.skip, code := b.code.push instr })

/-- Return a status if a condition holds, and go on in a new block if not. -/
def guard (condition : Operand) (status : ExitStatus) : Emit Unit := fun b =>
  let (holds, names) := b.names.fresh (Builder.stem b.label ++ ".if")
  let (fails, names) := names.fresh (Builder.stem b.label ++ ".endif")
  -- Both blocks exist before the branch is tried, so a refusal leaves them behind without code.
  if b.isEnded then
    (.error .blockEnded,
      { b with names := names.skip, after := (b.after.push ⟨holds, []⟩).push ⟨fails, []⟩ })
  else
    let guarded : Block := ⟨b.label, (b.code.push (.branch condition holds fails)).toList⟩
    let exit : Block := ⟨holds, [.ret status.code]⟩
    -- One number for the branch and one for the return.
    (.ok (), ⟨names.skip.skip, (b.before.push guarded).push exit, fails, #[], b.after⟩)

/-- Append the checks that a division needs: the divisor is not zero, and the quotient is a word. -/
def divisionGuards (left right : Operand) : Emit Unit := do
  let isZero ← define "divzero" (.equal · right (.const 0))
  guard isZero .divisionByZero
  let isLeast ← define "" (.equal · left (.const Word.minValue))
  let isMinusOne ← define "" (.equal · right (.const (-1)))
  let overflows ← define "divoverflow" (.both · isLeast isMinusOne)
  guard overflows .divisionOverflow

/-- Append an operation. -/
def operation (op : BinaryOp) (left right : Operand) : Emit Operand := do
  if op = .div then
    divisionGuards left right
  define (Builder.resultName op) (.arith · op left right)

/-- Append the printing of a value. -/
def print (value : Operand) : Emit Unit := do
  let format ← define "" .formatAddress
  let _ ← define "printf_call" (.printf · format value)

/-- Append the end of the routine: the value becomes the result, and the status is good. -/
def finish (value : Operand) : Emit Unit := do
  effect (.store value)
  terminate (.ret ExitStatus.ok.code)

end Emit

end LineCalc.IR
