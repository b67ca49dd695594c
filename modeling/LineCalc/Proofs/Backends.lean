import LineCalc.Line
import LineCalc.Proofs.IR.Numbers
import LineCalc.Proofs.IR.Simulation

/-!
# The backends agree

Walking a tree and running the code that it is compiled to give the same numbers on standard output
and then the same value, or a fault with the same cause. Only the walk knows the place of the fault.
The code takes a literal modulo the number of words, so the walk is that of the tree with reduced
literals; for literals that are words this is the tree itself. A literal of too many digits is the
one thing that the walk can take and the code cannot, since code is handed over as text.

* `Transcript.Agrees`: two runs that cannot be told apart but by the place of a fault.
* `Expr.runNative_agrees_interpret`: the backends agree on every tree that a walk can take in and
  whose literals can be written, and the routine of the tree returns.
-/

namespace LineCalc

open IR

/-! ### Reduced literals -/

namespace Expr

theorem isBinary_wrapLiterals (e : Expr) : e.wrapLiterals.isBinary = e.isBinary := by
  cases e <;> rfl

/-- Reducing literals keeps the shape of a tree. -/
theorem depth_wrapLiterals (e : Expr) : e.wrapLiterals.depth = e.depth := by
  induction e with
  | num literal => rfl
  | binary left operator right ihLeft ihRight =>
    simp only [wrapLiterals, depth, isBinary_wrapLiterals, ihLeft, ihRight]
  | print position body ih => rw [wrapLiterals, depth, depth, ih]
  | unknown name => rfl

/-- A tree whose literals are words is left as it is. -/
theorem wrapLiterals_of_inRange {e : Expr} (h : ∀ value ∈ e.literals, Word.InRange value) :
    e.wrapLiterals = e := by
  induction e with
  | num literal => rw [wrapLiterals, Word.wrap_of_inRange (h _ (List.mem_singleton_self _))]
  | binary left operator right ihLeft ihRight =>
    obtain ⟨hleft, hright⟩ := List.forall_mem_append.1 h
    rw [wrapLiterals, ihLeft hleft, ihRight hright]
  | print position body ih => rw [wrapLiterals, ih h]
  | unknown name => rfl

end Expr

/-! ### Routines -/

/-- A line that is closed by storing its value and returning ends with the status, the result and
the printed numbers of the evaluation. -/
theorem IR.runSteps_closed {steps : List Step} {value : Operand} {trace : Trace Int}
    (h : Simulates steps value .init trace) :
    ∃ status t, runSteps (steps ++ [.plain (.store value), .plain (.ret 0)]) .init =
        .halt (.ofStatus status) t ∧
      t.printed.reverse = trace.printed ∧
      match status.fault? with
      | none => trace.outcome = .ok t.result.toInt
      | some fault => ∃ position, trace.outcome = .error (.error ⟨fault, position⟩) := by
  cases h with
  | @fault printed fault position status t hrun hstatus hprinted =>
    -- A line that returned early never comes to its closing steps.
    refine ⟨status, t, runSteps_append_of_halt hrun, by simp [hprinted, State.init], ?_⟩
    rw [hstatus]
    exact ⟨position, rfl⟩
  | @value printed result t hrun hword hrange hprinted hframe =>
    let stored : State := { t with result := BitVec.ofInt 32 result }
    have hstore : (Step.plain (.store value)).run t = .go stored := by
      simp only [Step.run, Instr.step, hword, stored]
    refine ⟨.ok, stored, ?_, by simp [stored, hprinted, State.init], ?_⟩
    · rw [runSteps_append_of_go hrun, runSteps_cons_of_go hstore]
      rfl
    · exact congrArg Except.ok (Word.toInt_ofInt_of_inRange hrange).symm

/-- The routine of a tree returns, after printing what the evaluation of the tree with reduced
literals prints, with the result or with the status that tells of the fault. -/
theorem Expr.runBlocks_compile [Platform] {e : Expr} (hknown : e.isKnown = true)
    (hdepth : e.depth ≤ walkLimit) (name : String) :
    ∃ blocks status s, e.compile name = .ok ⟨name, some blocks⟩ ∧
      runBlocks blocks = (.ofStatus status, s) ∧
      s.printed.reverse = e.wrapLiterals.eval.printed ∧
      match status.fault? with
      | none => e.wrapLiterals.eval.outcome = .ok s.result.toInt
      | some fault => ∃ position,
        e.wrapLiterals.eval.outcome = .error (.error ⟨fault, position⟩) := by
  obtain ⟨value, steps, hcode, hnames, -, hcompile⟩ := compile_eq_layout hknown hdepth
  obtain ⟨status, t, hrun, hprinted, hresult⟩ :=
    runSteps_closed (hcode.simulates (List.nodup_cons.1 hnames).2 .init)
  have hclosed : (steps ++ [Step.plain (.store value), .plain (.ret 0)]).flatMap Step.names =
      steps.flatMap Step.names := by
    simp [Step.names, Instr.dest?]
  -- Running by labels needs only that no two blocks share one.
  have hlabels := (names_layout_perm Builder.init.label
    (steps ++ [.plain (.store value), .plain (.ret 0)])).nodup_iff.2 (by rwa [hclosed])
  rw [eval_eq_evalTree (by rwa [depth_wrapLiterals])]
  exact ⟨_, status, t, hcompile name, runBlocks_layout (List.nodup_append.1 hlabels).1 hrun,
    hprinted, hresult⟩

/-! ### Agreement -/

/-- Two runs with the same standard output and the same value, or faults with the same cause. -/
def Transcript.Agrees (t u : Transcript) : Prop :=
  t.stdout = u.stdout ∧
    ((∃ value, t.outcome = .ok value ∧ u.outcome = .ok value) ∨
      ∃ fault position position', t.outcome = .error (.error (.arithmetic ⟨fault, position⟩)) ∧
        u.outcome = .error (.error (.arithmetic ⟨fault, position'⟩)))

/-- The numbers of the statuses are zero, one and two. -/
theorem IR.Halt.ofStatus_mem (status : ExitStatus) :
    ofStatus status ∈ [Halt.returned 0, .returned 1, .returned 2] := by
  cases status <;> decide

/-- The number of a status is decoded to what the status tells of. -/
theorem IR.decode_code (status : ExitStatus) (result : Int) :
    decode (BitVec.ofInt 32 status.code).toInt result =
      match status.fault? with
      | none => .ok result
      | some fault => .error (.error (.arithmetic ⟨fault, none⟩)) := by
  cases status <;> rfl

/-- A module of the default name whose routine returns ends with the result or the fault. -/
theorem IR.Module.run_of_returned {blocks : List Block} {status : ExitStatus} {s : State}
    (hrun : runBlocks blocks = (.ofStatus status, s)) :
    Module.run ⟨defaultModule, some blocks⟩ = (s.printed.reverse,
      match status.fault? with
      | none => .ok s.result.toInt
      | some fault => .error (.error (.arithmetic ⟨fault, none⟩))) := by
  have haccepts : Header.accepts defaultModule = true := by decide +kernel
  simp only [Module.run, haccepts, if_true, Option.getD_some, hrun, Halt.ofStatus, decode_code]

/-- The run of a tree by its code, if no literal has too many digits. -/
theorem Expr.runNative_of_returned [Platform] {e : Expr} (hknown : e.isKnown = true)
    (hdepth : e.depth ≤ walkLimit)
    (hshort : ∀ value ∈ e.literals, value.natAbs < 10 ^ Numeral.maxDigits)
    {blocks : List Block} {status : ExitStatus} {s : State}
    (hcompile : e.compile defaultModule = .ok ⟨defaultModule, some blocks⟩)
    (hrun : runBlocks blocks = (.ofStatus status, s)) (logCode : Bool) :
    e.runNative defaultModule logCode =
      ⟨printedText s.printed.reverse,
        if logCode then Module.text ⟨defaultModule, some blocks⟩ ++ "\n" else "", none,
        match status.fault? with
        | none => .ok s.result.toInt
        | some fault => .error (.error (.arithmetic ⟨fault, none⟩))⟩ := by
  have hwrite : Module.write ⟨defaultModule, some blocks⟩ = .ok (Module.text _) :=
    if_pos ((isWritable_compile hknown hdepth hcompile).2 hshort)
  simp only [runNative, hcompile, hwrite, Module.run_of_returned hrun]

/-- The code of a tree with a literal of too many digits is not run. -/
theorem Expr.runNative_of_overlong [Platform] {e : Expr} (hknown : e.isKnown = true)
    (hdepth : e.depth ≤ walkLimit)
    (hlong : ∃ value ∈ e.literals, 10 ^ Numeral.maxDigits ≤ value.natAbs) (logCode : Bool) :
    e.runNative defaultModule logCode = .fail (.defect .unwritableNumber) := by
  obtain ⟨blocks, status, s, hcompile, -⟩ := runBlocks_compile hknown hdepth defaultModule
  obtain ⟨value, hmem, hvalue⟩ := hlong
  have hwrite : Module.write ⟨defaultModule, some blocks⟩ = .error .unwritableNumber :=
    if_neg fun hwritable =>
      hvalue.not_gt ((isWritable_compile hknown hdepth hcompile).1 hwritable value hmem)
  simp only [runNative, hcompile, hwrite]

/-- The backends agree on every tree that a walk can take in and that has no literal of too many
digits, with its literals reduced to words for the one that walks. With such a literal the code is
not run. The routine of the tree returns the number of a status in any case: it neither gets stuck
nor comes to an undefined operation. A tree whose literals are words is not changed by the
reduction. -/
theorem Expr.runNative_agrees_interpret [Platform] {e : Expr} (hknown : e.isKnown = true)
    (hdepth : e.depth ≤ walkLimit) (logCode : Bool) :
    ((∀ value ∈ e.literals, value.natAbs < 10 ^ Numeral.maxDigits) →
        (e.runNative defaultModule logCode).Agrees e.wrapLiterals.interpret) ∧
      ((∃ value ∈ e.literals, 10 ^ Numeral.maxDigits ≤ value.natAbs) →
        e.runNative defaultModule logCode = .fail (.defect .unwritableNumber)) ∧
      (∃ blocks, e.compile defaultModule = .ok ⟨defaultModule, some blocks⟩ ∧
        (runBlocks blocks).1 ∈ [Halt.returned 0, .returned 1, .returned 2]) ∧
      ((∀ value ∈ e.literals, Word.InRange value) → e.wrapLiterals = e) := by
  obtain ⟨blocks, status, s, hcompile, hrun, hprinted, hresult⟩ :=
    runBlocks_compile hknown hdepth defaultModule
  refine ⟨fun hshort => ?_, fun hlong => runNative_of_overlong hknown hdepth hlong logCode,
    ⟨blocks, hcompile, ?_⟩, wrapLiterals_of_inRange⟩
  · rw [runNative_of_returned hknown hdepth hshort hcompile hrun]
    refine ⟨congrArg printedText hprinted, ?_⟩
    cases hstatus : status.fault? with
    | none =>
      rw [hstatus] at hresult
      refine .inl ⟨s.result.toInt, rfl, ?_⟩
      simp only [interpret, hresult]
      rfl
    | some fault =>
      rw [hstatus] at hresult
      -- The status tells what went wrong, but not where.
      obtain ⟨position, houtcome⟩ := hresult
      refine .inr ⟨fault, none, position, rfl, ?_⟩
      simp only [interpret, houtcome]
      rfl
  · rw [hrun]
    exact Halt.ofStatus_mem status

open scoped Platform in
/-- A print below a division whose divisor becomes zero only when it is reduced. -/
theorem Expr.runNative_agrees_interpret_reduced :
    let e : Expr := .binary (.print none (.num ⟨3, 3, none⟩)) ⟨.div, .text "/", none⟩
      (.num ⟨4294967296, 4294967296, none⟩)
    (e.runNative defaultModule false).Agrees e.wrapLiterals.interpret ∧
      e.wrapLiterals.interpret.stdout = "3\n" ∧
      e.wrapLiterals.interpret.outcome =
        .error (.error (.arithmetic ⟨.divisionByZero, none⟩)) := by
  refine ⟨(Expr.runNative_agrees_interpret rfl ?_ false).1 ?_, ?_, ?_⟩
  · decide
  · exact List.forall_mem_cons.2 ⟨Numeral.isWritable_iff.1 rfl,
      List.forall_mem_singleton.2 (Numeral.isWritable_iff.1 rfl)⟩
  · rfl
  · rfl

open scoped Platform in
/-- A number of one digit too many reduces to zero. Walking the reduced tree gives that, and the
code of the tree cannot be written. -/
theorem Expr.runNative_overlong_literal :
    let e : Expr := .num ⟨10 ^ 4300, 10 ^ 4300, none⟩
    ¬(e.runNative defaultModule false).Agrees e.wrapLiterals.interpret ∧
      (e.runNative defaultModule false).outcome = .error (.defect .unwritableNumber) ∧
      e.wrapLiterals.interpret.outcome = .ok 0 := by
  -- The number itself is kept out of the runs, which would compute it.
  have hruns (v : Int) (hlong : 10 ^ Numeral.maxDigits ≤ v.natAbs) (hwrap : Word.wrap v = 0) :
      let e : Expr := .num ⟨v, v, none⟩
      ¬(e.runNative defaultModule false).Agrees e.wrapLiterals.interpret ∧
        (e.runNative defaultModule false).outcome = .error (.defect .unwritableNumber) ∧
        e.wrapLiterals.interpret.outcome = .ok 0 := by
    intro e
    have hnative := runNative_of_overlong (e := e) rfl (Nat.le_add_left 1 494)
      ⟨v, List.mem_singleton_self v, hlong⟩ false
    rw [hnative]
    refine ⟨?_, rfl, congrArg Except.ok hwrap⟩
    rintro ⟨-, ⟨value, hvalue, -⟩ | ⟨fault, position, position', hfault, -⟩⟩
    · cases hvalue
    · cases hfault
  have hlong (n : Nat) (hn : Numeral.maxDigits ≤ n) :
      10 ^ Numeral.maxDigits ≤ (10 ^ n : Int).natAbs := by
    rw [Int.natAbs_pow]
    exact Nat.pow_le_pow_right (by decide) hn
  have hdvd : (Word.modulus : Int) ∣ 10 ^ 4300 :=
    Dvd.dvd.trans (b := 10 ^ 32) (by decide) (pow_dvd_pow 10 (by decide))
  exact hruns _ (hlong 4300 (Nat.le_refl 4300)) (Word.wrap_congr (Int.modEq_zero_iff_dvd.2 hdvd))

end LineCalc
