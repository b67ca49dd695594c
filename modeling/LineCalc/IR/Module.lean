import LineCalc.Numeral

/-!
# Intermediate code

The code that a line is compiled to, and its text. A module holds a declaration of `printf`, the
format for it, a global variable for the result and possibly the routine `main`. The routine is a
list of labelled blocks; a block is a list of instructions, some of which end it.
-/

namespace LineCalc.IR

/-- What the number that the routine returns can stand for. -/
inductive ExitStatus
  | ok
  | divisionByZero
  | divisionOverflow
deriving DecidableEq

namespace ExitStatus

/-- All statuses, in the order of their codes. -/
def all : List ExitStatus := [.ok, .divisionByZero, .divisionOverflow]

/-- The number that stands for a status. -/
def code : ExitStatus → Int
  | .ok => 0
  | .divisionByZero => 1
  | .divisionOverflow => 2

/-- The name of a status. -/
def name : ExitStatus → String
  | .ok => "OK"
  | .divisionByZero => "DIVISION_BY_ZERO"
  | .divisionOverflow => "DIVISION_OVERFLOW"

/-- The status that a number stands for. -/
def ofCode? (code : Int) : Option ExitStatus := all.find? (·.code == code)

/-- The fault that a status tells of. -/
def fault? : ExitStatus → Option Fault
  | .ok => none
  | .divisionByZero => some .divisionByZero
  | .divisionOverflow => some .divisionOverflow

end ExitStatus

/-- What an instruction works on: a constant or the content of a register. -/
inductive Operand
  | const (value : Int)
  | register (name : String)
deriving DecidableEq

/-- The number that an operand is. -/
def Operand.number? : Operand → Option Int
  | .const value => some value
  | .register _ => none

/-- The instructions. The first name, if any, is the register that is set. -/
inductive Instr
  /-- Arithmetic on words. -/
  | arith (dest : String) (op : BinaryOp) (left right : Operand)
  /-- Whether two words are equal. -/
  | equal (dest : String) (left right : Operand)
  /-- Whether two conditions both hold. -/
  | both (dest : String) (left right : Operand)
  /-- The address of the output format. -/
  | formatAddress (dest : String)
  /-- Print a word with a format. -/
  | printf (dest : String) (format value : Operand)
  /-- Set the result. -/
  | store (value : Operand)
  /-- Go on at the first label if a condition holds, else at the second. -/
  | branch (condition : Operand) (holds fails : String)
  /-- Leave the routine and return a number. -/
  | ret (code : Int)
deriving DecidableEq

namespace Instr

/-- Instructions that end a block. -/
def isTerminator : Instr → Bool
  | .branch .. | .ret _ => true
  | _ => false

/-- Instructions that go on at one of two labels. -/
def isBranch : Instr → Bool
  | .branch .. => true
  | _ => false

/-- The register that an instruction sets. -/
def dest? : Instr → Option String
  | .arith dest .. | .equal dest .. | .both dest .. => some dest
  | .formatAddress dest | .printf dest .. => some dest
  | _ => none

/-- The operands of an instruction. -/
def operands : Instr → List Operand
  | .arith _ _ left right | .equal _ left right | .both _ left right => [left, right]
  | .printf _ format value => [format, value]
  | .store value => [value]
  | .branch condition _ _ => [condition]
  | .formatAddress _ | .ret _ => []

/-- The numbers that stand in an instruction. -/
def numbers : Instr → List Int
  | .ret code => [code]
  | instr => instr.operands.filterMap Operand.number?

/-- The labels that an instruction may go on at. -/
def targets : Instr → List String
  | .branch _ holds fails => [holds, fails]
  | _ => []

end Instr

/-- Instructions under a label. -/
structure Block where
  /-- The label. -/
  label : String
  /-- The instructions, in order. -/
  code : List Instr
deriving DecidableEq

/-- A named module. -/
structure Module where
  /-- The name. -/
  name : String
  /-- The blocks of the routine, in order, if it has been begun. -/
  main : Option (List Block)
deriving DecidableEq

/-! ### Text -/

/-- A register or label in quotes. -/
def localName (name : String) : String := s!"%\"{name}\""

/-- An operand as it is written. -/
def Operand.text : Operand → String
  | .const value => toString value
  | .register name => localName name

/-- The instruction word of an operation. -/
def mnemonic : BinaryOp → String
  | .add => "add"
  | .sub => "sub"
  | .mul => "mul"
  | .div => "sdiv"

/-- The word for the step that appends an instruction. -/
def Instr.appending : Instr → String
  | .arith _ op _ _ => mnemonic op
  | .equal .. => "icmp_signed"
  | .both .. => "and_"
  | .formatAddress _ => "bitcast"
  | .printf .. => "call"
  | .store _ => "store"
  | .branch .. => "cbranch"
  | .ret _ => "ret"

/-- An instruction as it is written. -/
def Instr.text : Instr → String
  | .arith dest op left right =>
    s!"{localName dest} = {mnemonic op} i32 {left.text}, {right.text}"
  | .equal dest left right => s!"{localName dest} = icmp eq i32 {left.text}, {right.text}"
  | .both dest left right => s!"{localName dest} = and i1 {left.text}, {right.text}"
  | .formatAddress dest => s!"{localName dest} = bitcast [4 x i8]* @\"format_str\" to i8*"
  | .printf dest format value =>
    s!"{localName dest} = call i32 (i8*, ...) @\"printf\"(i8* {format.text}, i32 {value.text})"
  | .store value => s!"store i32 {value.text}, i32* @\"result\""
  | .branch condition holds fails =>
    s!"br i1 {condition.text}, label {localName holds}, label {localName fails}, !prof !0"
  | .ret code => s!"ret i32 {code}"

/-- The lines of a block. -/
def Block.lines (b : Block) : List String :=
  (b.label ++ ":") :: b.code.map fun instr => "  " ++ instr.text

/-- Lines with a break after each. -/
def unlines (lines : List String) : String := String.join (lines.map (· ++ "\n"))

/-- The text of the routine. -/
def mainText (blocks : List Block) : String :=
  unlines (["define i32 @\"main\"()", "\x7b"] ++ blocks.flatMap Block.lines ++ ["\x7d"])

namespace Module

/-- The text that stands before the routine, in parts that are each followed by a break. -/
def preamble (name : String) : List String := [
  s!"; ModuleID = \"{name}\"",
  "target triple = \"unknown-unknown-unknown\"",
  "target datalayout = \"\"",
  "",
  "declare i32 @\"printf\"(i8* %\".1\", ...)\n",
  "@\"format_str\" = private constant [4 x i8] c\"%d\\0a\\00\"",
  "@\"result\" = global i32 0"]

/-- The hint that guards are hardly ever taken. -/
def guardWeights : String := "!0 = !\x7b !\"branch_weights\", i32 1, i32 99 \x7d"

/-- The parts of a module's text. The hint is there if some block branches. -/
def parts (m : Module) : List String :=
  match m.main with
  | none => preamble m.name
  | some blocks =>
    let branches := blocks.any fun b => b.code.any Instr.isBranch
    preamble m.name ++ [mainText blocks] ++ (if branches then [guardWeights] else [])

/-- The text of a module. -/
def text (m : Module) : String := "\n".intercalate m.parts

/-- Whether all numbers in a module can be written. -/
def isWritable (m : Module) : Bool :=
  (m.main.getD []).all fun b => b.code.all fun instr => instr.numbers.all Numeral.isWritable

/-- Write a module. There is no text if a number in it cannot be written. -/
def write (m : Module) : Except Defect String :=
  if m.isWritable then .ok m.text else .error .unwritableNumber

end Module

end LineCalc.IR
