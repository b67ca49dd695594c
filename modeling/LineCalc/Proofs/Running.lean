import LineCalc.Proofs.Backends
import LineCalc.Proofs.Depth
import LineCalc.Proofs.InOrder

/-!
# How a line ends

The value of a tree of a line is given by plain recursion, and so is the fault that it may meet
instead. Both backends end with that value or with that fault, or report that the tree is too deep;
nothing else can happen.

* `Expr.value`: the value of a tree, or its fault.
* `Expr.page_error`: a tree of a text that has no page is too deep.
* `Expr.runOn_ends`: how a backend ends.
* `runLine_ends`: a text that has a tree ends as its tree does, unless it is displayed and its page
  is too deep.
-/

namespace LineCalc

open IR

/-! ### Values -/

namespace Expr

/-- The value of a tree, or the fault that it meets first. -/
def value : Expr → Except (Failure Fault) Int
  | .num literal => .ok literal.value
  | .binary left operator right => do
    let a ← left.value
    let b ← right.value
    (operator.op.apply a b).mapError .error
  | .print _ body => body.value
  | .unknown name => .error (.defect (.unknownNode name))

/-- The value of a tree depends on its outline only. -/
theorem value_outline (e : Expr) : e.outline.value = e.value := by
  induction e with
  | num literal => rfl
  | binary left operator right ihLeft ihRight => rw [outline, value, value, ihLeft, ihRight]
  | print position body ih => rw [outline, value, value, ih]
  | unknown name => rfl

/-- The value of a tree whose literals are words is a word. -/
theorem value_inRange {e : Expr} (hrange : ∀ v ∈ e.literals, Word.InRange v) {v : Int}
    (h : e.value = .ok v) : Word.InRange v := by
  induction e generalizing v with
  | num literal =>
    obtain rfl := Except.ok.inj h
    exact hrange _ (List.mem_singleton_self _)
  | unknown name => cases h
  | print position body ih => exact ih hrange h
  | binary left operator right ihLeft ihRight =>
    obtain ⟨a, hleft, hrest⟩ := ok_of_bind_ok h
    obtain ⟨b, -, happly⟩ := ok_of_bind_ok hrest
    have ha := ihLeft (List.forall_mem_append.1 hrange).1 hleft
    cases hop : operator.op.apply a b with
    | error fault =>
      rw [hop] at happly
      cases happly
    | ok result =>
      rw [hop] at happly
      obtain rfl := Except.ok.inj happly
      exact BinaryOp.apply_inRange ha hop

/-- Evaluation by plain recursion ends with the value of a tree whose literals are words, or with
its fault at some place. -/
theorem value_eq {e : Expr} (hrange : ∀ v ∈ e.literals, Word.InRange v) :
    e.value = e.evalTree.outcome.mapError (·.map ArithmeticError.fault) := by
  induction e with
  | num literal => rfl
  | unknown name => rfl
  | print position body ih =>
    have hbody := ih hrange
    rw [value, evalTree]
    cases houtcome : body.evalTree.outcome with
    | error failure => rw [Trace.bind_of_failure houtcome, hbody, houtcome]
    | ok a =>
      -- What is printed is a word, so that it can be written.
      rw [houtcome] at hbody
      rw [Trace.bind_of_result houtcome, Trace.print_of_inRange (value_inRange hrange hbody), hbody]
  | binary left operator right ihLeft ihRight =>
    obtain ⟨hleftRange, hrightRange⟩ := List.forall_mem_append.1 hrange
    rw [value, ihLeft hleftRange, ihRight hrightRange, evalTree]
    -- A fault of the left operand comes first, whatever the right one does.
    cases hleft : left.evalTree.outcome with
    | error failure => rw [Trace.bind_of_failure hleft]; rfl
    | ok a =>
      rw [Trace.bind_of_result hleft]
      cases hright : right.evalTree.outcome with
      | error failure => rw [Trace.bind_of_failure hright]; rfl
      | ok b =>
        rw [Trace.bind_of_result hright, Operator.apply]
        show (operator.op.apply a b).mapError Failure.error = _
        cases operator.op.apply a b <;> rfl

/-- A tree of known nodes has a value or a fault. -/
theorem value_ne_defect {e : Expr} (hknown : e.isKnown = true) (d : Defect) :
    e.value ≠ .error (.defect d) := by
  induction e with
  | num literal => exact fun h => by cases h
  | unknown name => cases hknown
  | print position body ih => exact ih hknown
  | binary left operator right ihLeft ihRight =>
    obtain ⟨hleft, hright⟩ := Bool.and_eq_true_iff.1 hknown
    intro h
    rcases error_of_bind_error h with hvalue | ⟨a, -, hrest⟩
    · exact ihLeft hleft hvalue
    rcases error_of_bind_error hrest with hvalue | ⟨b, -, happly⟩
    · exact ihRight hright hvalue
    · cases hop : operator.op.apply a b <;> rw [hop] at happly <;> cases happly

/-! ### Trees of a line -/

theorem isKnown_of_isFormula {e : Expr} (h : e.isFormula = true) : e.isKnown = true := by
  induction e with
  | num literal => rfl
  | binary left operator right ihLeft ihRight =>
    obtain ⟨hleft, hright⟩ := Bool.and_eq_true_iff.1 h
    rw [isKnown, ihLeft hleft, ihRight hright]
    rfl
  | print | unknown => cases h

theorem inRange_of_isFormula {e : Expr} (h : e.isFormula = true) :
    ∀ v ∈ e.literals, Word.InRange v := by
  induction e with
  | num literal =>
    intro v hmem
    rw [List.mem_singleton.1 hmem]
    exact of_decide_eq_true h
  | binary left operator right ihLeft ihRight =>
    obtain ⟨hleft, hright⟩ := Bool.and_eq_true_iff.1 h
    exact List.forall_mem_append.2 ⟨ihLeft hleft, ihRight hright⟩
  | print | unknown => cases h

/-- A line has no nodes of unknown sort, and its literals are words. -/
theorem known_of_isLine {e : Expr} (h : e.isLine = true) :
    e.isKnown = true ∧ ∀ v ∈ e.literals, Word.InRange v := by
  cases e with
  | print position body =>
    exact ⟨isKnown_of_isFormula (e := body) h, inRange_of_isFormula (e := body) h⟩
  | num | binary | unknown => exact ⟨isKnown_of_isFormula h, inRange_of_isFormula h⟩

end Expr

/-! ### Drawing -/

namespace Expr

/-- Every operator is shown by its own symbol. -/
def showsSymbols : Expr → Bool
  | .num _ | .unknown _ => true
  | .binary left operator right =>
    decide (operator.shown = .text operator.op.symbol) && left.showsSymbols && right.showsSymbols
  | .print _ body => body.showsSymbols

theorem showsSymbols_binary {left right : Expr} {operator : Operator} :
    (Expr.binary left operator right).showsSymbols = true ↔
      operator.shown = .text operator.op.symbol ∧ left.showsSymbols = true ∧
        right.showsSymbols = true := by
  simp [showsSymbols, and_assoc]

/-- It suffices to look at the operations among the subtrees. -/
theorem showsSymbols_of_subtrees {e : Expr}
    (h : ∀ left operator right, .binary left operator right ∈ e.subtrees →
      operator.shown = .text operator.op.symbol) : e.showsSymbols = true := by
  induction e with
  | num | unknown => rfl
  | print position body ih =>
    refine ih fun l o r hmem => h l o r ?_
    rw [subtrees_print]
    exact List.mem_append_left _ hmem
  | binary left operator right ihLeft ihRight =>
    simp only [subtrees_binary, List.mem_append] at h
    exact showsSymbols_binary.2 ⟨h left operator right (.inr (.inr (List.mem_singleton_self _))),
      ihLeft fun l o r hmem => h l o r (.inl hmem),
      ihRight fun l o r hmem => h l o r (.inr (.inl hmem))⟩

/-- The operators of a tree that has been parsed are shown by their symbols. -/
theorem showsSymbols_of_parse {levels : Nat} {text : String} {tree : Expr}
    (h : (parse levels text).result = .ok tree) : tree.showsSymbols = true := by
  refine showsSymbols_of_subtrees fun left operator right hmem => ?_
  obtain ⟨op, position, rfl, -⟩ := exists_token_of_binary h hmem
  rfl

/-- Drawing a tree of known nodes, of words and of operations that are shown by their characters can
only fail for want of levels. -/
theorem chartWithin_error {levels : Nat} {e : Expr} {defect : Defect} (hknown : e.isKnown = true)
    (hrange : ∀ v ∈ e.literals, Word.InRange v) (hshown : e.showsSymbols = true)
    (h : e.chartWithin levels = .error defect) : defect = .tooDeep := by
  induction levels generalizing e defect with
  | zero =>
    cases h
    rfl
  | succ levels ih =>
    cases e with
    | unknown name => cases hknown
    | num literal =>
      have hwritable := Numeral.isWritable_iff.2
        (Word.natAbs_lt (hrange literal.value (List.mem_singleton_self _)))
      rw [chartWithin, Numeral.write, if_pos hwritable] at h
      cases h
    | print position body =>
      rw [chartWithin] at h
      rcases error_of_bind_error h with hbody | ⟨child, -, hchild⟩
      · exact ih (e := body) hknown hrange hshown hbody
      · cases hchild
    | binary left operator right =>
      rw [chartWithin, bind_foldlM] at h
      revert h
      refine leftSpine_induct (P := fun (drawn : Except Defect ChartNode) e =>
        e.isKnown = true → (∀ v ∈ e.literals, Word.InRange v) → e.showsSymbols = true →
          drawn = .error defect → defect = .tooDeep) (fun e _ => ih) ?_ _ hknown hrange hshown
      intro drawn left operator right hdrawn hknown hrange hshown h
      obtain ⟨hleft, hright⟩ := Bool.and_eq_true_iff.1 hknown
      obtain ⟨hleftRange, hrightRange⟩ := List.forall_mem_append.1 hrange
      obtain ⟨hsymbol, hleftShown, hrightShown⟩ := showsSymbols_binary.1 hshown
      rcases error_of_bind_error h with hchart | ⟨chart, -, hrest⟩
      · exact hdrawn hleft hleftRange hleftShown hchart
      rw [hsymbol] at hrest
      rcases error_of_bind_error hrest with hname | ⟨name, -, hrest⟩
      · cases hname
      rcases error_of_bind_error hrest with hoperand | ⟨operand, -, hpair⟩
      · exact ih hright hrightRange hrightShown hoperand
      · cases hpair

/-- The page of a tree that has been parsed can only be missing for want of levels. -/
theorem page_error [Platform] {levels : Nat} {text : String} {tree : Expr} {host : ScriptHost}
    {defect : Defect} (htree : (parse levels text).result = .ok tree)
    (h : tree.page host = .error defect) : defect = .tooDeep := by
  obtain ⟨hknown, hrange⟩ := known_of_isLine (isLine_of_parse htree)
  rcases error_of_bind_error h with hchart | ⟨root, -, hroot⟩
  · exact chartWithin_error hknown hrange (showsSymbols_of_parse htree) hchart
  · rw [Page.ofChart] at hroot
    split at hroot <;> cases hroot
    rfl

end Expr

/-! ### Backends -/

/-- What a backend reports of a tree that is too deep for it. -/
def Backend.tooDeep : Backend → LineError
  | .interpreter => .evaluationTooDeep
  | .native => .compilationTooDeep

/-- How the run of a tree can end: with its value, if a walk can take it in; with the report that it
is too deep, if none can; or with its fault, which may be met before the part that is too deep. -/
inductive Expr.RunEnds [Platform] (e : Expr) (backend : Backend) :
    Except (Failure LineError) Int → Prop
  | value {v : Int} (h : e.value = .ok v) (hdepth : e.depth ≤ walkLimit) : RunEnds e backend (.ok v)
  | fault {fault : Fault} (h : e.value = .error (.error fault)) (position : Option Position) :
    RunEnds e backend (.error (.error (.arithmetic ⟨fault, position⟩)))
  | tooDeep (hdepth : ¬e.depth ≤ walkLimit) : RunEnds e backend (.error (.error backend.tooDeep))

namespace Transcript

variable {t : Transcript} {error : LineError}

/-- Only a nesting that is too deep is changed by being reported. -/
theorem reportDepth_of_ok {v : Int} (h : t.outcome = .ok v) : t.reportDepth error = t := by
  rw [reportDepth, h]

theorem reportDepth_of_error {e : LineError} (h : t.outcome = .error (.error e)) :
    t.reportDepth error = t := by
  rw [reportDepth, h]

/-- A nesting that is too deep is reported as the given error. -/
theorem reportDepth_of_tooDeep (h : t.outcome = .error (.defect .tooDeep)) :
    (t.reportDepth error).outcome = .error (.error error) := by
  rw [reportDepth, h]

end Transcript

namespace Expr

variable [Platform] {e : Expr}

/-- The walk of a tree ends with its value or its fault, unless it is too deep. -/
theorem interpret_ends (hknown : e.isKnown = true) (hrange : ∀ v ∈ e.literals, Word.InRange v) :
    e.RunEnds .interpreter (e.interpret.reportDepth .evaluationTooDeep).outcome := by
  have houtcome : e.interpret.outcome = e.eval.outcome.mapError (·.map .arithmetic) := rfl
  have hvalue := value_eq hrange
  rcases evalWithin_or_tooDeep walkLimit e with hdeep | hsame
  · rw [eval, hdeep] at houtcome
    rw [Transcript.reportDepth_of_tooDeep houtcome]
    -- With enough levels the walk is plain recursion, which does not run out of any.
    refine .tooDeep fun hdepth => value_ne_defect hknown .tooDeep ?_
    rw [hvalue, ← evalWithin_eq_evalTree hdepth, hdeep]
    rfl
  rw [eval, hsame] at houtcome
  cases hend : e.evalTree.outcome with
  | ok v =>
    rw [hend] at houtcome hvalue
    rw [Transcript.reportDepth_of_ok houtcome, houtcome]
    exact .value hvalue (depth_le_of_evalWithin (hsame ▸ hend))
  | error failure =>
    rw [hend] at houtcome hvalue
    cases failure with
    | defect d => exact absurd hvalue (value_ne_defect hknown d)
    | error error =>
      -- The walk knows the place of the operation, which the code of a tree does not.
      rw [Transcript.reportDepth_of_error houtcome, houtcome]
      exact .fault hvalue error.position

/-- The code of a tree ends with its value or its fault, unless the tree is too deep for code. -/
theorem runNative_ends (hknown : e.isKnown = true) (hrange : ∀ v ∈ e.literals, Word.InRange v)
    (logCode : Bool) :
    e.RunEnds .native
      ((e.runNative defaultModule logCode).reportDepth .compilationTooDeep).outcome := by
  by_cases hdepth : e.depth ≤ walkLimit
  swap
  · have hdeep := (depth_le_or_compile_tooDeep hknown defaultModule).resolve_left hdepth
    have houtcome : (e.runNative defaultModule logCode).outcome = .error (.defect .tooDeep) := by
      simp only [runNative, hdeep]
      rfl
    rw [Transcript.reportDepth_of_tooDeep houtcome]
    exact .tooDeep hdepth
  -- The literals are words, so the code computes the tree itself.
  obtain ⟨blocks, status, s, hcompile, hrun, -, hresult⟩ :=
    runBlocks_compile hknown hdepth defaultModule
  rw [wrapLiterals_of_inRange hrange, eval_eq_evalTree hdepth] at hresult
  have hnative := runNative_of_returned hknown hdepth
    (fun v hv => Word.natAbs_lt (hrange v hv)) hcompile hrun logCode
  have hvalue := value_eq hrange
  cases hstatus : status.fault? with
  | none =>
    rw [hstatus] at hresult hnative
    rw [hresult] at hvalue
    rw [hnative, Transcript.reportDepth_of_ok rfl]
    exact .value hvalue hdepth
  | some fault =>
    rw [hstatus] at hresult hnative
    obtain ⟨position, hresult⟩ := hresult
    rw [hresult] at hvalue
    rw [hnative, Transcript.reportDepth_of_error rfl]
    exact .fault hvalue none

/-- How a backend ends on a tree of a line. -/
theorem runOn_ends (hline : e.isLine = true) (backend : Backend) (logCode : Bool) :
    e.RunEnds backend (e.runOn backend logCode).outcome := by
  obtain ⟨hknown, hrange⟩ := known_of_isLine hline
  cases backend with
  | interpreter => exact interpret_ends hknown hrange
  | native => exact runNative_ends hknown hrange logCode

/-- A tree that is displayed ends as it does without that, unless there is no page of it. -/
theorem run_ends (hline : e.isLine = true) (settings : Settings) (backend : Backend) :
    e.RunEnds backend (e.run settings backend).outcome ∨
      settings.display = true ∧ ∃ defect, e.page settings.host = .error defect ∧
        (e.run settings backend).outcome = .error (.defect defect) := by
  have hends := runOn_ends hline backend settings.logCode
  cases hdisplay : settings.display with
  | false =>
    left
    rw [run, hdisplay]
    exact hends
  | true =>
    cases hpage : e.page settings.host with
    | ok page =>
      left
      rw [run, hdisplay, if_pos rfl, hpage]
      exact hends
    | error defect =>
      -- The page is made before the tree is run, and its failure is not reported.
      right
      rw [run, hdisplay, if_pos rfl, hpage]
      exact ⟨rfl, defect, rfl, rfl⟩

end Expr

/-! ### Lines -/

section

variable [Platform] {settings : Settings} {text : String}

/-- A text that has a tree ends as the run of that. -/
theorem outcome_runLine_of_ok {tree : Expr} (h : (settings.parse text).result = .ok tree)
    (backend : Backend) :
    (runLine text settings backend).outcome = (tree.run settings backend).outcome := by
  rw [runLine, Parsed.run, h]
  rfl

/-- A text that has a tree ends as its tree does. -/
theorem runLine_ends {tree : Expr} (h : (settings.parse text).result = .ok tree)
    (backend : Backend) :
    tree.RunEnds backend (runLine text settings backend).outcome ∨
      settings.display = true ∧
        (runLine text settings backend).outcome = .error (.defect .tooDeep) := by
  rw [outcome_runLine_of_ok h]
  rcases Expr.run_ends (isLine_of_parse h) settings backend with hends | ⟨hdisplay, d, hpage, hrun⟩
  · exact .inl hends
  · obtain rfl := Expr.page_error h hpage
    exact .inr ⟨hdisplay, hrun⟩

/-- A text without a tree ends with the failure of its parser. -/
theorem outcome_runLine_of_error {failure : Failure ParseError}
    (h : (settings.parse text).result = .error failure) (backend : Backend) :
    (runLine text settings backend).outcome = .error (failure.map .parse) := by
  rw [runLine, Parsed.run, h]
  rfl

end

end LineCalc
