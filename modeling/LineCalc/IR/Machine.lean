import LineCalc.IR.Module

/-!
# Running a routine

A machine for the intermediate code. It stands for the compiler that makes a program of that code
and for the processor that runs it, neither of which is part of the calculator. What is assumed of
them is that together they do what the machine does.

Words are bit vectors; sums, differences and products wrap around, and a constant that is no word is
reduced to its low 32 bits. A division by zero and the division of the least word by minus one are
undefined. An operand that is not set or is of the wrong sort, a missing label and a block without
an end leave the machine stuck. Printing writes the signed decimal of a word and a line feed, and
has the number of characters written as its result. Memory is modelled by the one global variable
that the code stores to, and the stack of the running program not at all.
-/

namespace LineCalc.IR

/-- What a register can hold. -/
inductive Value
  | word (w : BitVec 32)
  | bit (b : Bool)
  | formatAddress
deriving DecidableEq

/-- What a run can see and change. -/
structure State where
  /-- The registers, the one set last first. -/
  registers : List (String × Value)
  /-- The global variable for the result. -/
  result : BitVec 32
  /-- The printed numbers, the latest first. -/
  printed : List Int
deriving DecidableEq

/-- How a run ended. -/
inductive Halt
  | returned (status : BitVec 32)
  | stuck
  | undefined
  | unfinished
deriving DecidableEq

/-- What an instruction does next. -/
inductive Next
  | go (s : State)
  | jump (label : String) (s : State)
  | halt (h : Halt) (s : State)
deriving DecidableEq

namespace State

/-- Nothing is set and nothing is printed. -/
def init : State := ⟨[], 0, []⟩

/-- The content of an operand. -/
def value? (s : State) : Operand → Option Value
  | .const value => some (.word (BitVec.ofInt 32 value))
  | .register name => s.registers.lookup name

/-- The content of an operand that holds a word. -/
def word? (s : State) (operand : Operand) : Option (BitVec 32) :=
  match s.value? operand with
  | some (.word w) => some w
  | _ => none

/-- The content of an operand that holds a condition. -/
def bit? (s : State) (operand : Operand) : Option Bool :=
  match s.value? operand with
  | some (.bit b) => some b
  | _ => none

/-- Set a register. -/
def set (s : State) (name : String) (value : Value) : State :=
  { s with registers := (name, value) :: s.registers }

end State

/-- The value of an operation on words, where it is defined. -/
def wordOp? (op : BinaryOp) (left right : BitVec 32) : Option (BitVec 32) :=
  match op with
  | .add => some (left + right)
  | .sub => some (left - right)
  | .mul => some (left * right)
  | .div =>
    if right = 0 ∨ (left = BitVec.intMin 32 ∧ right = -1) then none else some (left.sdiv right)

/-- Carry out an instruction. -/
def Instr.step (instr : Instr) (s : State) : Next :=
  match instr with
  | .arith dest op left right =>
    match s.word? left, s.word? right with
    | some l, some r =>
      match wordOp? op l r with
      | some w => .go (s.set dest (.word w))
      | none => .halt .undefined s
    | _, _ => .halt .stuck s
  | .equal dest left right =>
    match s.word? left, s.word? right with
    | some l, some r => .go (s.set dest (.bit (l == r)))
    | _, _ => .halt .stuck s
  | .both dest left right =>
    match s.bit? left, s.bit? right with
    | some l, some r => .go (s.set dest (.bit (l && r)))
    | _, _ => .halt .stuck s
  | .formatAddress dest => .go (s.set dest .formatAddress)
  | .printf dest format value =>
    match s.value? format, s.word? value with
    | some .formatAddress, some w =>
      let written := (toString w.toInt).length + 1
      .go { s.set dest (.word (BitVec.ofNat 32 written)) with printed := w.toInt :: s.printed }
    | _, _ => .halt .stuck s
  | .store value =>
    match s.word? value with
    | some w => .go { s with result := w }
    | none => .halt .stuck s
  | .branch condition holds fails =>
    match s.bit? condition with
    | some b => .jump (if b then holds else fails) s
    | none => .halt .stuck s
  | .ret code => .halt (.returned (BitVec.ofInt 32 code)) s

/-- Carry out instructions in order until one of them leaves the block. -/
def runCode : List Instr → State → Next
  | [], s => .halt .stuck s
  | instr :: rest, s =>
    match instr.step s with
    | .go s => runCode rest s
    | next => next

/-- Run from a label on, through at most the given number of blocks. -/
def runFrom (blocks : List Block) : Nat → String → State → Halt × State
  | 0, _, s => (.unfinished, s)
  | count + 1, label, s =>
    match blocks.find? (·.label == label) with
    | none => (.stuck, s)
    | some block =>
      match runCode block.code s with
      | .go s => (.stuck, s)
      | .jump label s => runFrom blocks count label s
      | .halt h s => (h, s)

/-- Run a routine from its first block. No block is run twice unless the routine loops. -/
def runBlocks (blocks : List Block) : Halt × State :=
  match blocks with
  | [] => (.stuck, .init)
  | first :: _ => runFrom blocks blocks.length first.label .init

end LineCalc.IR
