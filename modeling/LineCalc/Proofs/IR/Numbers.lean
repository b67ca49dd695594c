import LineCalc.Proofs.Word
import LineCalc.Proofs.IR.Correspondence

/-!
# The numbers in code

A module is handed over as text, and a number of too many digits cannot be written. The numbers in
the code of a tree are the literals of the tree, none of which is left out, and words of its own:
those that divisions are checked against and those that stand for a status.

* `Expr.literals`: the numbers that a tree holds.
* `Expr.Code.mem_numbers_or_const`: no literal of a tree is missing in its code.
* `Expr.Code.mem_literals_or_inRange`: no number but a literal or a word is in the code of a tree.
* `Expr.isWritable_compile`: the module of a tree can be written if and only if no literal of the
  tree is too long.
-/

namespace LineCalc

open IR

/-- The numbers that a tree holds. -/
def Expr.literals : Expr → List Int
  | .num literal => [literal.value]
  | .binary left _ right => left.literals ++ right.literals
  | .print _ body => body.literals
  | .unknown _ => []

namespace IR

/-- The numbers that stand in a line of steps. -/
def numbers (steps : List Step) : List Int := (steps.flatMap Step.instrs).flatMap Instr.numbers

theorem numbers_append (first second : List Step) :
    numbers (first ++ second) = numbers first ++ numbers second := by
  simp [numbers]

@[simp]
theorem Operand.number?_eq_some_iff {operand : Operand} {v : Int} :
    operand.number? = some v ↔ operand = .const v := by
  cases operand <;> simp [number?]

/-- A module can be written if the numbers in its routine can. -/
theorem Module.isWritable_iff {name : String} {blocks : List Block} :
    (⟨name, some blocks⟩ : Module).isWritable = true ↔
      ∀ v ∈ (instructions blocks).flatMap Instr.numbers, v.natAbs < 10 ^ Numeral.maxDigits := by
  simp only [isWritable, instructions, Numeral.isWritable_iff, Option.getD_some, List.all_eq_true,
    List.mem_flatMap]
  constructor
  · rintro h v ⟨instr, ⟨b, hb, hinstr⟩, hv⟩
    exact h b hb instr hinstr v hv
  · intro h b hb instr hinstr v hv
    exact h v ⟨instr, ⟨b, hb, hinstr⟩, hv⟩

end IR

namespace BinaryOp.Code

variable {op : BinaryOp} {left right value : Operand} {steps : List Step} {v : Int}

/-- A constant that an operation works on stands in its code. -/
theorem mem_numbers (h : op.Code left right steps value)
    (hv : Operand.const v ∈ [left, right]) : v ∈ numbers steps := by
  cases h with
  | plain hop dest => simpa [numbers, Step.instrs, Instr.numbers, Instr.operands] using hv
  | div isZero isLeast isMinusOne overflows dest holds₁ fails₁ holds₂ fails₂ =>
    -- The last step of a division is the division itself, with both operands.
    rw [numbers_append]
    refine List.mem_append_right _ ?_
    simpa [numbers, Step.instrs, Instr.numbers, Instr.operands] using hv

/-- A number in the code of an operation is a constant that the operation works on, or a word. -/
theorem const_or_inRange (h : op.Code left right steps value) (hv : v ∈ numbers steps) :
    Operand.const v ∈ [left, right] ∨ Word.InRange v := by
  cases h with
  | plain hop dest =>
    left
    simpa [numbers, Step.instrs, Instr.numbers, Instr.operands] using hv
  | div isZero isLeast isMinusOne overflows dest holds₁ fails₁ holds₂ fails₂ =>
    -- The checks hold the operands, what these are compared with, and the numbers of two statuses.
    simp [numbers, divisionChecks, Step.instrs, Instr.numbers, Instr.operands,
      ExitStatus.code] at hv ⊢
    rcases hv with (h | rfl) | rfl | (h | rfl) | (h | rfl) | rfl | h
    · exact .inl (.inr h)
    · exact .inr (by decide)
    · exact .inr (by decide)
    · exact .inl (.inl h)
    · exact .inr (by decide)
    · exact .inl (.inr h)
    · exact .inr (by decide)
    · exact .inr (by decide)
    · exact .inl h

end BinaryOp.Code

namespace Expr.Code

variable {e : Expr} {steps : List Step} {value : Operand} {v : Int}

/-- Every literal of a tree stands in its code, or is the value of the tree itself. -/
theorem mem_numbers_or_const (h : e.Code steps value) (hv : v ∈ e.literals) :
    v ∈ numbers steps ∨ value = .const v := by
  induction h with
  | num literal => exact .inr (congrArg Operand.const (List.mem_singleton.1 hv).symm)
  | @binary left right operator a b value leftSteps rightSteps opSteps hleft hright hop
      ihLeft ihRight =>
    -- What an operand has as its value is what the operation works on.
    left
    rw [numbers_append, numbers_append, List.mem_append, List.mem_append]
    rcases List.mem_append.1 hv with hmem | hmem
    · rcases ihLeft hmem with hnumber | hconst
      · exact .inl hnumber
      · exact .inr (.inr (hop.mem_numbers (by simp [hconst])))
    · rcases ihRight hmem with hnumber | hconst
      · exact .inr (.inl hnumber)
      · exact .inr (.inr (hop.mem_numbers (by simp [hconst])))
  | print hbody format dest ih =>
    rw [numbers_append]
    exact (ih hv).imp_left (List.mem_append_left _)

/-- A constant that is the value of a tree is a literal of it. -/
theorem mem_literals_of_const (h : e.Code steps value) (hv : value = .const v) :
    v ∈ e.literals := by
  induction h with
  | num literal => exact List.mem_singleton.2 (Operand.const.inj hv).symm
  | binary hleft hright hop =>
    -- The value of an operation is in a register.
    obtain ⟨dest, hvalue, -⟩ := hop.filter_isWork
    cases hvalue.symm.trans hv
  | print hbody format dest ih => exact ih hv

/-- A number in the code of a tree is a literal of the tree, or a word. -/
theorem mem_literals_or_inRange (h : e.Code steps value) (hv : v ∈ numbers steps) :
    v ∈ e.literals ∨ Word.InRange v := by
  induction h with
  | num literal => cases hv
  | @binary left right operator a b value leftSteps rightSteps opSteps hleft hright hop
      ihLeft ihRight =>
    rw [numbers_append, numbers_append, List.mem_append, List.mem_append] at hv
    rcases hv with hmem | hmem | hmem
    · exact (ihLeft hmem).imp_left (List.mem_append_left _)
    · exact (ihRight hmem).imp_left (List.mem_append_right _)
    · refine (hop.const_or_inRange hmem).imp_left fun hconst => ?_
      rcases List.mem_pair.1 hconst with hconst | hconst
      · exact List.mem_append_left _ (hleft.mem_literals_of_const hconst.symm)
      · exact List.mem_append_right _ (hright.mem_literals_of_const hconst.symm)
  | @print body position value steps hbody format dest ih =>
    rw [numbers_append, List.mem_append] at hv
    rcases hv with hmem | hmem
    · exact ih hmem
    · -- Printing adds the value of the body, if that is a number at all.
      left
      refine hbody.mem_literals_of_const (Eq.symm ?_)
      simpa [numbers, Step.instrs, Instr.numbers, Instr.operands] using hmem

end Expr.Code

/-- The module of a tree can be written if and only if no literal of the tree is too long. -/
theorem Expr.isWritable_compile [Platform] {e : Expr} (hknown : e.isKnown = true)
    (hdepth : e.depth ≤ walkLimit) {name : String} {m : Module} (h : e.compile name = .ok m) :
    m.isWritable = true ↔ ∀ v ∈ e.literals, v.natAbs < 10 ^ Numeral.maxDigits := by
  obtain ⟨value, steps, hcode, -, -, hcompile⟩ := compile_eq_layout hknown hdepth
  obtain rfl := Except.ok.inj ((hcompile name).symm.trans h)
  have hnumbers : (instructions (layout Builder.init.label []
      (steps ++ [.plain (.store value), .plain (.ret 0)]))).flatMap Instr.numbers =
        numbers steps ++ (value.number?.toList ++ [0]) := by
    rw [instructions_layout, List.nil_append, List.flatMap_append, List.flatMap_append]
    cases value <;> rfl
  rw [Module.isWritable_iff, hnumbers]
  constructor
  · -- The value of the tree is stored, so it stands in the code even if nothing else does.
    intro hall v hv
    refine hall v ?_
    rcases hcode.mem_numbers_or_const hv with hmem | rfl
    · exact List.mem_append_left _ hmem
    · simp [Operand.number?]
  · intro hall v hv
    rcases List.mem_append.1 hv with hmem | hmem
    · exact (hcode.mem_literals_or_inRange hmem).elim (hall v) Word.natAbs_lt
    rcases List.mem_append.1 hmem with hmem | hmem
    · refine hall v (hcode.mem_literals_of_const ?_)
      simpa using hmem
    · rw [List.mem_singleton.1 hmem]
      exact Word.natAbs_lt Word.zero_inRange

end LineCalc
