import LineCalc.Proofs.IR.WellFormed

/-!
# Code and tree

The code of a tree mirrors the tree. Each operation and each print of the tree has one instruction
in the code, in the order of evaluation and on the operands that hold the values of its subtrees.
Each division has two guards, which check its own operands and report what they find by a block of
their own. Nothing else is computed, printed or reported.

* `follow`: reading instructions along the nodes of a tree.
* `Division`: a division in a line of steps, with its checks, and where it stands in blocks.
* `Expr.Code.follow_postfixOnto`: the steps of a tree are read along the nodes of the tree.
* `Expr.Code.exists_divisions`: the steps of a tree hold one division for each in the tree.
* `Expr.compile_mirrored`: the compiled routine of a tree mirrors the tree.
-/

namespace LineCalc

namespace IR

/-! ### Reading code -/

/-- The instructions of a routine, in the order of its text. -/
def instructions (blocks : List Block) : List Instr := blocks.flatMap (·.code)

theorem instructions_cons (block : Block) (blocks : List Block) :
    instructions (block :: blocks) = block.code ++ instructions blocks := rfl

/-- Instructions that compute a value of the line or print one. -/
def Instr.isWork : Instr → Bool
  | .arith .. | .printf .. => true
  | _ => false

/-- Instructions that divide. -/
def Instr.isDivision : Instr → Bool
  | .arith _ .div _ _ => true
  | _ => false

/-- Blocks that do nothing but return the status of a division that fails. -/
def Block.isExit (b : Block) : Bool :=
  b.code = [.ret 1] || b.code = [.ret 2]

/-- Read instructions along nodes, each of which comes after its subtrees, with a stack of the
operands that hold the values of finished trees. A number has no instruction and is a constant. An
operation takes the next instruction, which has to work on the values of its two subtrees, and its
value is in the register that is set. A print takes the next instruction, too, and passes on the
value that is printed. Instructions and nodes have to end together. -/
def follow : List Expr.Node → List Instr → List Operand → Option (List Operand)
  | [], [], stack => some stack
  | .num literal :: nodes, code, stack => follow nodes code (.const literal.value :: stack)
  -- The right operand was finished last, so it is on top.
  | .binary label :: nodes, .arith dest op left right :: code, b :: a :: stack =>
    if label.kind = .op op ∧ left = a ∧ right = b then
      follow nodes code (.register dest :: stack)
    else none
  | .print _ :: nodes, .printf _ _ printed :: code, value :: stack =>
    if printed = value then follow nodes code (value :: stack) else none
  | _, _, _ => none

/-! ### Divisions -/

/-- A division in a line of steps: its operands, the registers that are set on the way, and the
labels of its two guards. -/
structure Division where
  /-- What is divided. -/
  left : Operand
  /-- What it is divided by. -/
  right : Operand
  /-- Whether the divisor is zero. -/
  isZero : String
  /-- Whether the dividend is the least word. -/
  isLeast : String
  /-- Whether the divisor is minus one. -/
  isMinusOne : String
  /-- Whether the quotient is no word. -/
  overflows : String
  /-- The quotient. -/
  dest : String
  /-- The block that reports a zero divisor. -/
  holds₁ : String
  /-- The block that goes on if the divisor is not zero. -/
  fails₁ : String
  /-- The block that reports a quotient that is no word. -/
  holds₂ : String
  /-- The block that goes on if the quotient is a word. -/
  fails₂ : String

namespace Division

/-- The instruction that divides. -/
def instr (d : Division) : Instr := .arith d.dest .div d.left d.right

/-- The steps of a division. -/
def steps (d : Division) : List Step :=
  divisionChecks d.left d.right d.isZero d.isLeast d.isMinusOne d.overflows d.holds₁ d.fails₁
    d.holds₂ d.fails₂ ++ [.plain d.instr]

/-- The blocks that report that the division fails. -/
def exits (d : Division) : List Block :=
  [⟨d.holds₁, [.ret 1]⟩, ⟨d.holds₂, [.ret 2]⟩]

/-- Some blocks hold a division: one of them ends with the check of its divisor, and the next ones
report a zero divisor, check both operands, report an overflow and go on with the division. -/
def StandsIn (d : Division) (blocks : List Block) : Prop :=
  ∃ label before after,
    -- The first block may hold code of what comes before, the last one of what comes after.
    [⟨label, before ++ [.equal d.isZero d.right (.const 0),
        .branch (.register d.isZero) d.holds₁ d.fails₁]⟩,
      ⟨d.holds₁, [.ret 1]⟩,
      -- Between the two guards nothing but the second check is done.
      ⟨d.fails₁, [.equal d.isLeast d.left (.const Word.minValue),
        .equal d.isMinusOne d.right (.const (-1)),
        .both d.overflows (.register d.isLeast) (.register d.isMinusOne),
        .branch (.register d.overflows) d.holds₂ d.fails₂]⟩,
      ⟨d.holds₂, [.ret 2]⟩,
      ⟨d.fails₂, d.instr :: after⟩] <:+: blocks

end Division

/-! ### What a layout holds -/

namespace Step

/-- The instructions that a step is laid out in. -/
def instrs : Step → List Instr
  | .plain instr => [instr]
  | .guard condition status holds fails => [.branch condition holds fails, .ret status.code]

/-- The blocks that a step adds for a status. -/
def exits : Step → List Block
  | .plain _ => []
  | .guard _ status holds _ => [⟨holds, [.ret status.code]⟩]

end Step

/-- The instructions of a layout are those of its steps. -/
theorem instructions_layout (label : String) (code : List Instr) (steps : List Step) :
    instructions (layout label code steps) = code ++ steps.flatMap Step.instrs := by
  induction steps generalizing label code with
  | nil => simp [layout, instructions]
  | cons step steps ih =>
    cases step with
    | plain instr => rw [layout, ih, List.append_assoc, List.flatMap_cons, Step.instrs]
    | guard condition status holds fails =>
      rw [layout, instructions_cons, instructions_cons, ih]
      simp [Step.instrs]

/-- A layout can be cut between two steps: what follows goes on in the block that is current there,
after the instructions of what comes before. -/
theorem exists_layout_append (label : String) (code : List Instr) (first : List Step) :
    ∃ front last held, instructions front ++ held = code ++ first.flatMap Step.instrs ∧
      ∀ second, layout label code (first ++ second) = front ++ layout last held second := by
  induction first generalizing label code with
  | nil => exact ⟨[], label, code, by simp [instructions], fun second => rfl⟩
  | cons step first ih =>
    cases step with
    | plain instr =>
      obtain ⟨front, last, held, hheld, hlayout⟩ := ih label (code ++ [instr])
      refine ⟨front, last, held, ?_, hlayout⟩
      rw [hheld, List.append_assoc, List.flatMap_cons, Step.instrs]
    | guard condition status holds fails =>
      -- Both blocks of a guard are finished, and the new current block starts without code.
      obtain ⟨front, last, held, hheld, hlayout⟩ := ih fails []
      refine ⟨⟨label, code ++ [.branch condition holds fails]⟩ ::
        ⟨holds, [.ret status.code]⟩ :: front, last, held, ?_, fun second => ?_⟩
      · simp only [instructions_cons, List.append_assoc, hheld]
        simp [Step.instrs]
      · rw [List.cons_append, layout, hlayout, List.cons_append, List.cons_append]

/-- A layout has one block, and two more for each guard. -/
theorem length_layout (label : String) (code : List Instr) (steps : List Step) :
    (layout label code steps).length = 1 + 2 * (steps.flatMap Step.exits).length := by
  induction steps generalizing label code with
  | nil => rfl
  | cons step steps ih =>
    cases step with
    | plain instr => exact ih label (code ++ [instr])
    | guard condition status holds fails =>
      simp only [layout, List.length_cons, ih, List.flatMap_cons, Step.exits, List.length_append,
        List.length_nil]
      omega

/-- A block that ends in another way is no exit. -/
theorem Block.isExit_eq_false {label : String} {code : List Instr} {last : Instr}
    (hzero : last ≠ .ret 1) (hoverflow : last ≠ .ret 2) :
    Block.isExit ⟨label, code ++ [last]⟩ = false := by
  simp [Block.isExit, List.append_eq_singleton_iff, hzero, hoverflow]

/-- The exits of the layout of a line that sets the result and returns at its end are among the
blocks that its guards add. -/
theorem filter_isExit_layout (label : String) (code : List Instr) (steps : List Step)
    (value : Operand) :
    (layout label code (steps ++ [.plain (.store value), .plain (.ret 0)])).filter Block.isExit =
      (steps.flatMap Step.exits).filter Block.isExit := by
  induction steps generalizing label code with
  | nil =>
    have hlast : Block.isExit ⟨label, code ++ [.store value] ++ [.ret 0]⟩ = false :=
      Block.isExit_eq_false (by simp) (by simp)
    simp only [List.nil_append, layout, List.filter_singleton, hlast]
    rfl
  | cons step steps ih =>
    cases step with
    | plain instr => exact ih label (code ++ [instr])
    | guard condition status holds fails =>
      -- Of the two blocks of a guard, only the one that returns the status can be an exit.
      have hguarded : Block.isExit ⟨label, code ++ [.branch condition holds fails]⟩ = false :=
        Block.isExit_eq_false (by simp) (by simp)
      rw [List.cons_append, layout, List.filter_cons_of_neg (by simp [hguarded]),
        List.flatMap_cons, List.filter_append, ← ih fails [], ← List.filter_append]
      rfl

/-- The layout of a line that holds the steps of a division holds the division. -/
theorem Division.standsIn_layout {d : Division} {steps : List Step} (h : d.steps <:+: steps)
    (label : String) (code : List Instr) : d.StandsIn (layout label code steps) := by
  obtain ⟨front, rest, rfl⟩ := h
  obtain ⟨blocks, last, held, -, hlayout⟩ := exists_layout_append label code front
  -- The quotient is the first instruction of the block in which the line goes on.
  obtain ⟨tail, others, htail⟩ := exists_layout_eq_cons d.fails₂ [d.instr] rest
  refine ⟨last, held, tail, blocks, others, ?_⟩
  rw [List.append_assoc front, hlayout]
  simp [Division.steps, divisionChecks, layout, htail, ExitStatus.code]

/-! ### The divisions of a line -/

/-- The divisions of a line of steps, in order: the line divides and returns a status for these
only. -/
structure HasDivisions (steps : List Step) (divisions : List Division) : Prop where
  /-- The blocks for a status are those of the divisions. -/
  exits : steps.flatMap Step.exits = divisions.flatMap Division.exits
  /-- The instructions that divide are those of the divisions. -/
  instrs : (steps.flatMap Step.instrs).filter Instr.isDivision = divisions.map Division.instr
  /-- Each division stands in the line with all its steps. -/
  stands : ∀ d ∈ divisions, d.steps <:+: steps

namespace HasDivisions

variable {steps : List Step} {divisions : List Division}

/-- A line without guards and divisions has none. -/
theorem nil (hexits : steps.flatMap Step.exits = [])
    (hinstrs : (steps.flatMap Step.instrs).filter Instr.isDivision = []) :
    HasDivisions steps [] := ⟨hexits, hinstrs, by simp⟩

/-- The steps of a division are a line that has it. -/
theorem single (d : Division) : HasDivisions d.steps [d] :=
  ⟨rfl, rfl, List.forall_mem_singleton.2 (List.infix_refl _)⟩

/-- The divisions of two lines one after the other. -/
theorem append {first second : List Step} {firstDivisions secondDivisions : List Division}
    (hfirst : HasDivisions first firstDivisions) (hsecond : HasDivisions second secondDivisions) :
    HasDivisions (first ++ second) (firstDivisions ++ secondDivisions) where
  exits := by rw [List.flatMap_append, List.flatMap_append, hfirst.exits, hsecond.exits]
  instrs := by
    rw [List.flatMap_append, List.filter_append, hfirst.instrs, hsecond.instrs, List.map_append]
  stands := by
    intro d h
    rcases List.mem_append.1 h with h | h
    · exact (hfirst.stands d h).trans (List.prefix_append ..).isInfix
    · exact (hsecond.stands d h).trans (List.suffix_append ..).isInfix

/-- Each division of a line adds two blocks for a status. -/
theorem length_exits (h : HasDivisions steps divisions) :
    (steps.flatMap Step.exits).length = 2 * divisions.length := by
  simp [h.exits, List.length_flatMap, Division.exits, Nat.mul_comm]

/-- All the blocks that a line adds for a status are exits. -/
theorem filter_isExit (h : HasDivisions steps divisions) :
    (steps.flatMap Step.exits).filter Block.isExit = divisions.flatMap Division.exits := by
  rw [h.exits, List.filter_eq_self]
  intro block hblock
  obtain ⟨d, -, hexit⟩ := List.mem_flatMap.1 hblock
  simp only [Division.exits, List.mem_cons, List.not_mem_nil, or_false] at hexit
  rcases hexit with rfl | rfl <;> rfl

end HasDivisions

end IR

open IR

/-! ### The code of a tree -/

/-- The number of divisions in a tree. -/
def Expr.divisionCount : Expr → Nat
  | .binary left operator right =>
    left.divisionCount + (right.divisionCount + if operator.op = .div then 1 else 0)
  | .print _ body => body.divisionCount
  | .num _ | .unknown _ => 0

/-- The one instruction of an operation that computes sets the register of its value. -/
theorem BinaryOp.Code.filter_isWork {op : BinaryOp} {left right value : Operand}
    {steps : List Step} (h : op.Code left right steps value) :
    ∃ dest, value = .register dest ∧
      (steps.flatMap Step.instrs).filter Instr.isWork = [.arith dest op left right] := by
  cases h with
  | plain hop dest => exact ⟨dest, rfl, rfl⟩
  | div isZero isLeast isMinusOne overflows dest holds₁ fails₁ holds₂ fails₂ =>
    exact ⟨dest, rfl, rfl⟩

/-- The steps of an operation have one division if it is one, and else none. -/
theorem BinaryOp.Code.exists_divisions {op : BinaryOp} {left right value : Operand}
    {steps : List Step} (h : op.Code left right steps value) :
    ∃ divisions, HasDivisions steps divisions ∧
      divisions.length = if op = .div then 1 else 0 := by
  cases h with
  | plain hop dest =>
    -- A single instruction adds no guard, and it is counted only if it divides.
    refine ⟨[], .nil rfl ?_, by simp [hop]⟩
    cases op with
    | div => exact absurd rfl hop
    | add | sub | mul => rfl
  | div isZero isLeast isMinusOne overflows dest holds₁ fails₁ holds₂ fails₂ =>
    exact ⟨_, .single ⟨left, right, isZero, isLeast, isMinusOne, overflows, dest, holds₁, fails₁,
      holds₂, fails₂⟩, rfl⟩

/-- The steps of an operation do not set the result. -/
theorem BinaryOp.Code.store_notMem {op : BinaryOp} {left right value : Operand}
    {steps : List Step} (h : op.Code left right steps value) (stored : Operand) :
    Instr.store stored ∉ steps.flatMap Step.instrs := by
  cases h <;> simp [divisionChecks, Step.instrs]

namespace Expr.Code

variable {e : Expr} {steps : List Step} {value : Operand}

/-- Reading the steps of a tree along its nodes puts the operand that holds its value on the
stack. -/
theorem follow_postfixOnto (h : e.Code steps value) (nodes : List Node) (code : List Instr)
    (stack : List Operand) :
    follow (e.postfixOnto nodes) ((steps.flatMap Step.instrs).filter Instr.isWork ++ code) stack =
      follow nodes code (value :: stack) := by
  -- The values of left operands wait on the stack while the code of right operands is read.
  induction h generalizing nodes code stack with
  | num literal => rfl
  | binary hleft hright hop ihLeft ihRight =>
    obtain ⟨dest, rfl, hwork⟩ := hop.filter_isWork
    rw [postfixOnto, List.flatMap_append, List.flatMap_append, List.filter_append,
      List.filter_append, hwork, List.append_assoc, List.append_assoc, ihLeft, ihRight]
    simp [follow, Operator.label]
  | print hbody format dest ih =>
    rw [postfixOnto, List.flatMap_append, List.filter_append, List.append_assoc, ih]
    exact if_pos rfl

/-- A difference whose operands are swapped is not read along its nodes. -/
example :
    let tree : Expr := .binary (.num ⟨7, 7, none⟩) ⟨.sub, .text "-", none⟩ (.num ⟨2, 2, none⟩)
    follow tree.toPostfix [.arith "tmpsub" .sub (.const 2) (.const 7)] [] = none := by decide

/-- The steps of a tree have one division for each that the tree has. -/
theorem exists_divisions (h : e.Code steps value) :
    ∃ divisions, HasDivisions steps divisions ∧ divisions.length = e.divisionCount := by
  induction h with
  | num literal => exact ⟨[], .nil rfl rfl, rfl⟩
  | binary hleft hright hop ihLeft ihRight =>
    obtain ⟨leftDivisions, hleftDivisions, hleftLength⟩ := ihLeft
    obtain ⟨rightDivisions, hrightDivisions, hrightLength⟩ := ihRight
    obtain ⟨opDivisions, hopDivisions, hopLength⟩ := hop.exists_divisions
    refine ⟨_, hleftDivisions.append (hrightDivisions.append hopDivisions), ?_⟩
    rw [List.length_append, List.length_append, hleftLength, hrightLength, hopLength, divisionCount]
  | print hbody format dest ih =>
    obtain ⟨divisions, hdivisions, hlength⟩ := ih
    refine ⟨_, hdivisions.append (.nil rfl rfl), ?_⟩
    rw [List.append_nil, hlength, divisionCount]

/-- The steps of a tree do not set the result. -/
theorem store_notMem (h : e.Code steps value) (stored : Operand) :
    Instr.store stored ∉ steps.flatMap Step.instrs := by
  induction h with
  | num literal => simp
  | binary hleft hright hop ihLeft ihRight =>
    rw [List.flatMap_append, List.flatMap_append, List.mem_append, List.mem_append, not_or, not_or]
    exact ⟨ihLeft, ihRight, hop.store_notMem stored⟩
  | print hbody format dest ih => simpa [Step.instrs] using ih

end Expr.Code

/-- The blocks of a routine mirror a tree: they compute and print what its nodes say, with the given
divisions, and leave its value in the given operand. -/
structure Expr.MirroredBy (e : Expr) (blocks : List Block) (divisions : List Division)
    (value : Operand) : Prop where
  /-- There is one block, and four more for each division of the tree. -/
  length_blocks : blocks.length = 1 + 4 * e.divisionCount
  /-- The code has one division for each that the tree has. -/
  length_divisions : divisions.length = e.divisionCount
  /-- Two blocks for each division of the tree only return a status. -/
  count_exits : blocks.countP Block.isExit = 2 * e.divisionCount
  /-- These are the two of each division, one pair after the other. -/
  exits : blocks.filter Block.isExit = divisions.flatMap Division.exits
  /-- The two guards of each division check its own operands, right before it. -/
  stands : ∀ d ∈ divisions, d.StandsIn blocks
  /-- The instructions that divide are those of the divisions, in order. -/
  divides : (instructions blocks).filter Instr.isDivision = divisions.map Division.instr
  /-- The instructions that compute or print are, in order, those that the nodes of the tree ask
  for, on the operands that hold the values of their subtrees. -/
  follows : follow e.toPostfix ((instructions blocks).filter Instr.isWork) [] = some [value]
  /-- No two instructions set the same register, and no two blocks have the same label. -/
  names_nodup : (blocks.map (·.label) ++ blocks.flatMap (·.dests)).Nodup
  /-- The last block ends by setting the result to the value of the tree and returning `0`, and the
  result is set nowhere else. -/
  ends : ∃ front label code, blocks = front ++ [⟨label, code ++ [.store value, .ret 0]⟩] ∧
    ∀ stored, .store stored ∉ instructions front ++ code

/-- A line that computes a tree, and then sets the result and returns, is laid out in blocks that
mirror the tree. -/
theorem Expr.Code.exists_mirroredBy {e : Expr} {steps : List Step} {value : Operand}
    (h : e.Code steps value) {label : String} (hnames : (label :: steps.flatMap Step.names).Nodup) :
    ∃ divisions, e.MirroredBy
      (layout label [] (steps ++ [.plain (.store value), .plain (.ret 0)])) divisions value := by
  obtain ⟨divisions, hdivisions, hlength⟩ := h.exists_divisions
  obtain ⟨front, last, held, hheld, hends⟩ := exists_layout_append label [] steps
  generalize hblocks :
    layout label [] (steps ++ [.plain (.store value), .plain (.ret 0)]) = blocks
  -- The end of the line adds two instructions to those of the tree, but no work and no guard.
  have hinstrs : instructions blocks = steps.flatMap Step.instrs ++ [.store value, .ret 0] := by
    rw [← hblocks, instructions_layout, List.flatMap_append]
    rfl
  have hexits : blocks.filter Block.isExit = divisions.flatMap Division.exits := by
    rw [← hblocks, filter_isExit_layout, hdivisions.filter_isExit]
  exact ⟨divisions, {
    length_blocks := by
      rw [← hblocks, length_layout, List.flatMap_append, List.length_append,
        hdivisions.length_exits, hlength]
      simp only [List.flatMap_cons, List.flatMap_nil, Step.exits, List.append_nil, List.length_nil]
      omega
    length_divisions := hlength
    count_exits := by
      rw [List.countP_eq_length_filter, hexits, ← hdivisions.exits, hdivisions.length_exits,
        hlength]
    exits := hexits
    stands := by
      intro d hd
      rw [← hblocks]
      refine Division.standsIn_layout ?_ label []
      exact (hdivisions.stands d hd).trans (List.prefix_append ..).isInfix
    divides := by
      rw [hinstrs, List.filter_append, hdivisions.instrs]
      exact List.append_nil _
    follows := by
      rw [hinstrs, List.filter_append, toPostfix, h.follow_postfixOnto]
      rfl
    names_nodup := by
      rw [← hblocks, (names_layout_perm _ _).nodup_iff, List.flatMap_append]
      simpa [Step.names, Instr.dest?] using hnames
    ends := by
      refine ⟨front, last, held, ?_, fun stored => ?_⟩
      · rw [← hblocks, hends]
        simp [layout]
      · rw [hheld]
        exact h.store_notMem stored }⟩

/-- The routine that a tree of known nodes is compiled to mirrors the tree. -/
theorem Expr.compile_mirrored [Platform] {e : Expr} (hknown : e.isKnown = true)
    (hdepth : e.depth ≤ walkLimit) (name : String) :
    ∃ blocks divisions value, e.compile name = .ok ⟨name, some blocks⟩ ∧
      e.MirroredBy blocks divisions value := by
  obtain ⟨value, steps, hcode, hnames, -, hcompile⟩ := compile_eq_layout hknown hdepth
  obtain ⟨divisions, hmirrored⟩ := hcode.exists_mirroredBy hnames
  exact ⟨_, divisions, value, hcompile name, hmirrored⟩

open scoped Platform in
/-- A division whose divisor is a product of a quotient and a printed number is compiled to nine
blocks. -/
theorem Expr.compile_mirrored_quotient :
    let number (value : Int) : Expr := .num ⟨value, value, none⟩
    let join (left : Expr) (op : BinaryOp) (right : Expr) : Expr :=
      .binary left ⟨op, .text "", none⟩ right
    let tree := join (number 9) .div (join (join (number 8) .div (number 4)) .mul
      (.print none (number 3)))
    tree.isKnown = true ∧ tree.depth ≤ walkLimit ∧ tree.divisionCount = 2 ∧
      ∃ blocks divisions value, tree.compile "nine" = .ok ⟨"nine", some blocks⟩ ∧
        tree.MirroredBy blocks divisions value ∧ blocks.length = 9 := by
  intro number join tree
  have hknown : tree.isKnown = true := rfl
  have hdepth : tree.depth ≤ walkLimit := by decide
  obtain ⟨blocks, divisions, value, hcompile, hmirrored⟩ := compile_mirrored hknown hdepth "nine"
  exact ⟨hknown, hdepth, rfl, blocks, divisions, value, hcompile, hmirrored,
    hmirrored.length_blocks⟩

end LineCalc
