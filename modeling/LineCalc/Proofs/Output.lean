import LineCalc.Proofs.InOrder
import LineCalc.Proofs.Running

/-!
# What a line writes

A line that starts with `print` and has a value writes that value, on a line of its own. Nothing
else is ever written: operations are silent, and a print comes after all of them.

* `Trace.IsSilent`: evaluations that print nothing, such as those of operations.
* `Transcript.WritesValue`: runs that write their value or nothing.
* `isPrint_iff_of_parse`: which texts are printed.
* `stdout_runLine`: what a line writes, with any backend.
-/

namespace LineCalc

open IR LineCalc.Grammar

/-! ### Silent evaluations -/

/-- Nothing is printed. -/
def Trace.IsSilent {α : Type} (t : Trace α) : Prop := t.printed = []

/-- A sequence of silent parts is silent. -/
theorem Trace.IsSilent.bind {α β : Type} {t : Trace α} {f : α → Trace β} (ht : t.IsSilent)
    (hf : ∀ a, (f a).IsSilent) : (t.bind f).IsSilent := by
  cases houtcome : t.outcome with
  | error failure =>
    rw [bind_of_failure houtcome]
    exact ht
  | ok a =>
    rw [bind_of_result houtcome]
    exact List.append_eq_nil_iff.2 ⟨ht, hf a⟩

theorem Operator.apply_isSilent (o : Operator) (left right : Int) :
    (o.apply left right).IsSilent := by
  rw [apply]
  split <;> rfl

/-- Operations are silent, whether they have a value, meet a fault or run out of levels. -/
theorem Expr.evalWithin_isSilent (levels : Nat) {e : Expr} (h : e.isFormula = true) :
    (e.evalWithin levels).IsSilent := by
  induction levels generalizing e with
  | zero => rfl
  | succ levels ih =>
    cases e with
    | num literal => rfl
    | print | unknown => cases h
    | binary left operator right =>
      rw [evalWithin]
      revert h
      refine leftSpine_induct (P := fun (value : Trace Int) e =>
        e.isFormula = true → value.IsSilent) (fun e _ => ih) ?_ _
      intro value left operator right hvalue h
      obtain ⟨hleft, hright⟩ := Bool.and_eq_true_iff.1 h
      exact (hvalue hleft).bind fun a => (ih hright).bind fun b => operator.apply_isSilent a b

/-! ### Printed values -/

/-- The value that a run ends with, if it has one and is to print it. -/
def printedValue {ε : Type} (prints : Bool) : Except ε Int → List Int
  | .ok v => if prints then [v] else []
  | .error _ => []

theorem printedValue_mapError {ε δ : Type} (prints : Bool) (f : ε → δ) (outcome : Except ε Int) :
    printedValue prints (outcome.mapError f) = printedValue prints outcome := by
  cases outcome <;> rfl

theorem printedValue_false {ε : Type} (outcome : Except ε Int) :
    printedValue false outcome = [] := by
  cases outcome <;> rfl

/-- Evaluating a line prints its value if it has one and its root is a print, and else nothing. -/
theorem Expr.printed_evalWithin (levels : Nat) {e : Expr} (h : e.isLine = true) :
    (e.evalWithin levels).printed = printedValue e.isPrint (e.evalWithin levels).outcome := by
  cases e with
  | num | binary | unknown =>
    exact (evalWithin_isSilent levels h).trans (printedValue_false _).symm
  | print position body =>
    cases levels with
    | zero => rfl
    | succ levels =>
      -- Only what follows the silent body prints, and it comes after a value.
      have hbody : (body.evalWithin levels).printed = [] := evalWithin_isSilent levels h
      rw [evalWithin]
      cases houtcome : (body.evalWithin levels).outcome with
      | error failure =>
        rw [Trace.bind_of_failure houtcome]
        exact hbody
      | ok v =>
        rw [Trace.bind_of_result houtcome, hbody, Trace.print]
        split <;> rfl

/-! ### Runs -/

/-- A run that writes the value it ends with, or nothing if it has none or is not to print it. -/
def Transcript.WritesValue (t : Transcript) (prints : Bool) : Prop :=
  t.stdout = printedText (printedValue prints t.outcome)

theorem Transcript.fail_writesValue (failure : Failure LineError) (prints : Bool) :
    (fail failure).WritesValue prints := rfl

/-- Reporting too deep a nesting writes nothing, and what ended with that wrote nothing. -/
theorem Transcript.WritesValue.reportDepth {t : Transcript} {prints : Bool}
    (h : t.WritesValue prints) (error : LineError) : (t.reportDepth error).WritesValue prints := by
  rw [Transcript.reportDepth]
  split
  · next houtcome =>
    rw [WritesValue, houtcome] at h
    exact h
  · exact h

namespace Expr

variable [Platform] {e : Expr}

theorem interpret_writesValue (hline : e.isLine = true) : e.interpret.WritesValue e.isPrint := by
  show printedText e.eval.printed = printedText (printedValue _ (e.eval.outcome.mapError _))
  rw [printedValue_mapError, eval, printed_evalWithin walkLimit hline]

/-- The code of a line prints what the walk prints, and so nothing before a fault. -/
theorem runNative_writesValue (hline : e.isLine = true) (logCode : Bool) :
    (e.runNative defaultModule logCode).WritesValue e.isPrint := by
  obtain ⟨hknown, hrange⟩ := known_of_isLine hline
  rcases depth_le_or_compile_tooDeep hknown defaultModule with hdepth | hdeep
  swap
  · rw [runNative, hdeep]
    exact Transcript.fail_writesValue _ _
  obtain ⟨blocks, status, s, hcompile, hrun, hprinted, hresult⟩ :=
    runBlocks_compile hknown hdepth defaultModule
  rw [wrapLiterals_of_inRange hrange] at hprinted hresult
  rw [eval, printed_evalWithin walkLimit hline, ← eval] at hprinted
  rw [Transcript.WritesValue, runNative_of_returned hknown hdepth
    (fun v hv => Word.natAbs_lt (hrange v hv)) hcompile hrun]
  simp only [hprinted]
  cases hstatus : status.fault? with
  | none =>
    rw [hstatus] at hresult
    rw [hresult]
    rfl
  | some fault =>
    rw [hstatus] at hresult
    obtain ⟨position, hresult⟩ := hresult
    rw [hresult]
    rfl

theorem runOn_writesValue (hline : e.isLine = true) (backend : Backend) (logCode : Bool) :
    (e.runOn backend logCode).WritesValue e.isPrint := by
  cases backend with
  | interpreter => exact (interpret_writesValue hline).reportDepth _
  | native => exact (runNative_writesValue hline logCode).reportDepth _

/-- A page is not written to standard output. -/
theorem run_writesValue (hline : e.isLine = true) (settings : Settings) (backend : Backend) :
    (e.run settings backend).WritesValue e.isPrint := by
  have hrun := runOn_writesValue hline backend settings.logCode
  rw [run]
  split
  · split
    · exact Transcript.fail_writesValue _ _
    · exact hrun
  · exact hrun

end Expr

/-! ### Lines -/

/-- Only a line can hold the word `print`. -/
theorem Grammar.Derives.kind_ne_print {symbol : Symbol} {tokens : List Token} {tree : Expr}
    (h : Derives symbol tokens tree) (hsymbol : symbol ≠ .line) :
    ∀ token ∈ tokens, token.kind ≠ .print := by
  have hoperand (additive : Bool) : Symbol.operand additive ≠ .line := by
    cases additive <;> exact Symbol.noConfusion
  induction h with
  | number hvalue position => simp [Token.kind, Lexeme.kind]
  | negated value sign position => simp [Token.kind, Lexeme.kind]
  | group hbody opening closing ih =>
    simpa [Token.kind, Lexeme.kind, or_imp, forall_and] using ih (by simp)
  | @chain additive tokens more first tree hfirst hrest ihFirst ihRest =>
    exact List.forall_mem_append.2 ⟨ihFirst (hoperand additive), ihRest (by simp)⟩
  | done additive left => simp
  | @link additive op tokens more left right tree position hop hright hrest ihRight ihRest =>
    refine List.forall_mem_cons.2 ⟨by simp [Token.kind, Lexeme.kind], ?_⟩
    exact List.forall_mem_append.2 ⟨ihRight (hoperand additive), ihRest (by simp)⟩
  | bare | print => exact absurd rfl hsymbol

/-- The first token of a text is the word `print`. -/
def StartsWithPrint (text : String) : Prop :=
  (Feed.ofText text).tokens.1.head?.map Token.kind = some .print

instance (text : String) : Decidable (StartsWithPrint text) :=
  inferInstanceAs (Decidable (_ = _))

/-- The tree of a text is a print exactly if its first token says so. -/
theorem isPrint_iff_of_parse {levels : Nat} {text : String} {tree : Expr}
    (h : (parse levels text).result = .ok tree) :
    tree.isPrint = true ↔ StartsWithPrint text := by
  obtain ⟨_, htokens, @⟨tokens, _, hline, position⟩⟩ :=
    Feed.program_of_parse (Feed.ofText_regular text) h
  rw [StartsWithPrint, htokens]
  cases hline with
  | print hexpr position => exact iff_of_true rfl rfl
  | bare hexpr =>
    have hnone : ∀ token ∈ tokens ++ [⟨.eof, position⟩], token.kind ≠ .print :=
      List.forall_mem_append.2 ⟨hexpr.kind_ne_print (by simp), by simp [Token.kind, Lexeme.kind]⟩
    refine iff_of_false (fun hprint => ?_) fun hfirst => ?_
    · -- A tree that is a print holds the token of one.
      have hinOrder := (Program.intro (.bare hexpr) position).inOrder_eq
      cases tree with
      | num | binary | unknown => cases hprint
      | print place body =>
        obtain ⟨token, hmem, hlabel⟩ : ∃ token ∈ kept none (tokens ++ [⟨.eof, position⟩]),
            token.label = ⟨.print, .text printWord, place⟩ := by
          rw [← List.mem_map, ← hinOrder]
          exact List.mem_cons_self
        exact hnone token ((kept_sublist none _).mem hmem) (congrArg TokenLabel.kind hlabel)
    · obtain ⟨token, hhead, hkind⟩ := Option.map_eq_some_iff.1 hfirst
      exact hnone token (List.mem_of_mem_head? hhead) hkind

/-- A line whose tokens are not listed writes its value if it starts with `print` and has one. It
writes nothing if it does not start so, if it cannot be parsed, and if its evaluation fails. -/
theorem stdout_runLine [Platform] (text : String) {settings : Settings}
    (hlog : settings.logTokens = false) (backend : Backend) :
    (runLine text settings backend).stdout =
      match (runLine text settings backend).outcome with
      | .ok v => if StartsWithPrint text then toString v ++ "\n" else ""
      | .error _ => "" := by
  have hlisting (tokens : List Token) : settings.listing tokens = "" := by
    rw [Settings.listing, hlog]
    rfl
  cases hparse : (settings.parse text).result with
  | error failure =>
    rw [runLine, Parsed.run, hparse, hlisting]
    rfl
  | ok tree =>
    have hwrites := Expr.run_writesValue (isLine_of_parse hparse) settings backend
    have hrun : runLine text settings backend = (tree.run settings backend).after "" := by
      rw [runLine, Parsed.run, hparse, hlisting]
    rw [hrun]
    show "" ++ (tree.run settings backend).stdout =
      match (tree.run settings backend).outcome with
      | .ok v => if StartsWithPrint text then toString v ++ "\n" else ""
      | .error _ => ""
    rw [String.empty_append, hwrites]
    cases (tree.run settings backend).outcome with
    | error failure => rfl
    | ok v =>
      by_cases hstarts : StartsWithPrint text
      · simp [printedValue, (isPrint_iff_of_parse hparse).2 hstarts, hstarts, printedText]
      · have hprint : tree.isPrint = false :=
          Bool.eq_false_iff.2 fun h => hstarts ((isPrint_iff_of_parse hparse).1 h)
        simp [printedValue, hprint, hstarts, printedText]

open scoped Platform in
/-- A quotient that is printed, and a print whose second division is by zero. -/
theorem stdout_runLine_quotients :
    (runLine "print 7/2" {} .native).stdout = "3\n" ∧
      (runLine "print 8/2-1/0" {} .native).stdout = "" := by
  have hvalue : (runLine "print 7/2" {} .native).outcome = .ok 3 := by decide +kernel
  have hstarts : StartsWithPrint "print 7/2" := by decide +kernel
  have hfault : (runLine "print 8/2-1/0" {} .native).outcome =
      .error (.error (.arithmetic ⟨.divisionByZero, none⟩)) := by decide +kernel
  rw [stdout_runLine _ rfl, stdout_runLine _ rfl, hvalue, hfault]
  exact ⟨if_pos hstarts, rfl⟩

end LineCalc
