import LineCalc.Proofs.Word
import LineCalc.Proofs.IR.WellFormed

/-!
# Emitted code computes what evaluation does

The steps that compute a tree, run from any state, end as the evaluation of the tree with reduced
literals does: with the bits of its value in the operand, or with the status of its fault, and with
the same numbers printed. No register but those of the steps changes, so a value that waits for
another operand is still there when that operand has been computed.

* `Expr.wrapLiterals`: the tree with every literal reduced to a word.
* `Simulates`: a line of steps ends as an evaluation does.
* `Expr.Code.simulates`: the steps of a tree do.
-/

namespace LineCalc

open IR

/-- The tree with every literal reduced to a word. -/
def Expr.wrapLiterals : Expr → Expr
  | .num literal => .num { literal with value := Word.wrap literal.value }
  | .binary left operator right => .binary left.wrapLiterals operator right.wrapLiterals
  | .print position body => .print position body.wrapLiterals
  | .unknown name => .unknown name

namespace IR

/-! ### Registers -/

namespace State

/-- A register that was just set holds its value; all other operands are as before. -/
theorem value?_set (s : State) (name : String) (value : Value) (operand : Operand) :
    (s.set name value).value? operand =
      if operand = .register name then some value else s.value? operand := by
  cases operand with
  | const n => simp [value?]
  | register other =>
    by_cases h : other = name
    · simp [value?, set, h]
    · simp [value?, set, List.lookup_cons, beq_false_of_ne h, h]

@[simp]
theorem word?_const (s : State) (value : Int) :
    s.word? (.const value) = some (BitVec.ofInt 32 value) := rfl

/-- A condition that was just set can be read. -/
theorem bit?_set_self (s : State) (name : String) (b : Bool) :
    (s.set name (.bit b)).bit? (.register name) = some b := by
  rw [bit?, value?_set, if_pos rfl]

/-- Two states agree on all operands but some registers. -/
def AgreesExcept (names : List String) (s t : State) : Prop :=
  ∀ operand : Operand, (∀ name ∈ names, operand ≠ .register name) →
    t.value? operand = s.value? operand

theorem AgreesExcept.refl (s : State) : AgreesExcept [] s s := fun _ _ => rfl

theorem AgreesExcept.trans {first second : List String} {s t u : State}
    (hfirst : AgreesExcept first s t) (hsecond : AgreesExcept second t u) :
    AgreesExcept (first ++ second) s u := by
  intro operand h
  obtain ⟨hleft, hright⟩ := List.forall_mem_append.1 h
  rw [hsecond operand hright, hfirst operand hleft]

theorem AgreesExcept.mono {names larger : List String} (hsub : names ⊆ larger) {s t : State}
    (h : AgreesExcept names s t) : AgreesExcept larger s t :=
  fun operand hoperand => h operand fun name hname => hoperand name (hsub hname)

/-- Setting a register changes no other. -/
theorem AgreesExcept.set (s : State) (name : String) (value : Value) :
    AgreesExcept [name] s (s.set name value) := by
  intro operand h
  rw [value?_set, if_neg (h name List.mem_cons_self)]

/-- The word of an operand that is not touched stays. -/
theorem AgreesExcept.word? {names : List String} {s t : State} (h : AgreesExcept names s t)
    {operand : Operand} (hoperand : ∀ name ∈ names, operand ≠ .register name) :
    t.word? operand = s.word? operand := by
  rw [State.word?, State.word?, h operand hoperand]

end State

/-! ### Simulation -/

/-- A line of steps ends as an evaluation does, with the value in the given operand. -/
inductive Simulates (steps : List Step) (value : Operand) (s : State) : Trace Int → Prop
  | value {printed : List Int} {result : Int} {t : State} (hrun : runSteps steps s = .go t)
      (hword : t.word? value = some (BitVec.ofInt 32 result)) (hrange : Word.InRange result)
      (hprinted : t.printed = printed.reverse ++ s.printed)
      (hframe : s.AgreesExcept (steps.flatMap Step.dests) t) :
    Simulates steps value s ⟨printed, .ok result⟩
  | fault {printed : List Int} {fault : Fault} {position : Option Position} {status : ExitStatus}
      {t : State} (hrun : runSteps steps s = .halt (.ofStatus status) t)
      (hstatus : status.fault? = some fault)
      (hprinted : t.printed = printed.reverse ++ s.printed) :
    Simulates steps value s ⟨printed, .error (.error ⟨fault, position⟩)⟩

/-- A line after steps that go on ends as an evaluation after what they printed does. -/
theorem Simulates.append_of_go {first second : List Step} {value : Operand} {s t : State}
    {printed : List Int} {trace : Trace Int} (hrun : runSteps first s = .go t)
    (hprinted : t.printed = printed.reverse ++ s.printed)
    (hframe : s.AgreesExcept (first.flatMap Step.dests) t)
    (hsecond : Simulates second value t trace) :
    Simulates (first ++ second) value s ⟨printed ++ trace.printed, trace.outcome⟩ := by
  cases hsecond with
  | fault hrunRest hstatus hprintedRest =>
    refine .fault ((runSteps_append_of_go hrun).trans hrunRest) hstatus ?_
    rw [hprintedRest, hprinted, List.reverse_append, List.append_assoc]
  | value hrunRest hwordRest hrangeRest hprintedRest hframeRest =>
    refine .value ((runSteps_append_of_go hrun).trans hrunRest) hwordRest hrangeRest ?_ ?_
    · rw [hprintedRest, hprinted, List.reverse_append, List.append_assoc]
    · rw [List.flatMap_append]
      exact hframe.trans hframeRest

/-- Two lines one after the other end as an evaluation in two parts does. -/
theorem Simulates.bind {first second : List Step} {a value : Operand} {s : State}
    {trace : Trace Int} {rest : Int → Trace Int} (hfirst : Simulates first a s trace)
    (hsecond : ∀ t result, s.AgreesExcept (first.flatMap Step.dests) t →
      t.word? a = some (BitVec.ofInt 32 result) → Word.InRange result →
      Simulates second value t (rest result)) :
    Simulates (first ++ second) value s (trace.bind rest) := by
  cases hfirst with
  | fault hrun hstatus hprinted => exact .fault (runSteps_append_of_halt hrun) hstatus hprinted
  | value hrun hword hrange hprinted hframe =>
    exact .append_of_go hrun hprinted hframe (hsecond _ _ hframe hword hrange)

/-- A line of steps followed by nothing. -/
theorem Simulates.pure {result : Int} (hrange : Word.InRange result) {value : Operand} {s : State}
    (hword : s.word? value = some (BitVec.ofInt 32 result)) :
    Simulates [] value s (.pure result) :=
  .value rfl hword hrange rfl (.refl s)

end IR

/-! ### Operations -/

/-- The instruction of an operation that has a value sets its register to that value. -/
theorem BinaryOp.simulates_arith {op : BinaryOp} {left right : Operand} {s : State}
    {a b value : Int}
    (hleft : s.word? left = some (BitVec.ofInt 32 a))
    (hright : s.word? right = some (BitVec.ofInt 32 b)) (ha : Word.InRange a) (hb : Word.InRange b)
    (happly : op.apply a b = .ok value) (dest : String) :
    Simulates [.plain (.arith dest op left right)] (.register dest) s (.pure value) := by
  have hstep : (Step.plain (.arith dest op left right)).run s =
      .go (s.set dest (.word (BitVec.ofInt 32 value))) := by
    simp [Step.run, Instr.step, hleft, hright, wordOp?_of_apply_ok ha hb happly]
  refine .value (runSteps_cons_of_go hstep) ?_ (apply_inRange ha happly) rfl (.set s dest _)
  rw [State.word?, State.value?_set, if_pos rfl]

/-- The checks of a division return on a zero divisor and on a quotient that is no word, and go on
with no other change than to their own registers. -/
theorem IR.runSteps_divisionChecks {left right : Operand} {s : State} {a b : Int}
    (hleft : s.word? left = some (BitVec.ofInt 32 a))
    (hright : s.word? right = some (BitVec.ofInt 32 b)) (ha : Word.InRange a) (hb : Word.InRange b)
    {isZero isLeast isMinusOne overflows : String} (holds₁ fails₁ holds₂ fails₂ : String)
    (hregisters : isLeast ≠ isMinusOne)
    (hleftNames : ∀ name ∈ [isZero, isLeast, isMinusOne, overflows], left ≠ .register name)
    (hrightNames : ∀ name ∈ [isZero, isLeast, isMinusOne, overflows], right ≠ .register name) :
    ∃ t, t.printed = s.printed ∧
      s.AgreesExcept [isZero, isLeast, isMinusOne, overflows] t ∧
      runSteps (divisionChecks left right isZero isLeast isMinusOne overflows
          holds₁ fails₁ holds₂ fails₂) s =
      if b = 0 then .halt (.ofStatus .divisionByZero) t
      else if a = Word.minValue ∧ b = -1 then .halt (.ofStatus .divisionOverflow) t
      else .go t := by
  simp only [List.forall_mem_cons] at hleftNames hrightNames
  obtain ⟨hleftZero, hleftLeast, -⟩ := hleftNames
  obtain ⟨hrightZero, hrightLeast, -⟩ := hrightNames
  -- The states after each of the four instructions.
  let s₁ := s.set isZero (.bit (decide (b = 0)))
  let s₂ := s₁.set isLeast (.bit (decide (a = Word.minValue)))
  let s₃ := s₂.set isMinusOne (.bit (decide (b = -1)))
  let s₄ := s₃.set overflows (.bit (decide (a = Word.minValue ∧ b = -1)))
  have hframe₁ : s.AgreesExcept [isZero] s₁ := .set s _ _
  have hframe₂ : s.AgreesExcept [isZero, isLeast] s₂ := hframe₁.trans (.set s₁ _ _)
  have hframe₄ : s.AgreesExcept [isZero, isLeast, isMinusOne, overflows] s₄ :=
    (hframe₂.trans (.set s₂ _ _)).trans (.set s₃ _ _)
  have hstep₁ : (Step.plain (.equal isZero right (.const 0))).run s = .go s₁ := by
    simp only [Step.run, Instr.step, hright, State.word?_const, s₁]
    rw [Word.beq_ofInt hb Word.zero_inRange]
  have hstep₂ : (Step.plain (.equal isLeast left (.const Word.minValue))).run s₁ = .go s₂ := by
    have hword : s₁.word? left = some (BitVec.ofInt 32 a) := by
      rw [hframe₁.word? (by simpa using hleftZero), hleft]
    simp only [Step.run, Instr.step, hword, State.word?_const, s₂]
    rw [Word.beq_ofInt ha Word.minValue_inRange]
  have hstep₃ : (Step.plain (.equal isMinusOne right (.const (-1)))).run s₂ = .go s₃ := by
    have hword : s₂.word? right = some (BitVec.ofInt 32 b) := by
      rw [hframe₂.word? (by simpa using ⟨hrightZero, hrightLeast⟩), hright]
    simp only [Step.run, Instr.step, hword, State.word?_const, s₃]
    rw [Word.beq_ofInt hb Word.minusOne_inRange]
  have hstep₄ : (Step.plain (.both overflows (.register isLeast) (.register isMinusOne))).run s₃ =
      .go s₄ := by
    have hleast : s₃.bit? (.register isLeast) = some (decide (a = Word.minValue)) := by
      simp only [s₃, s₂, State.bit?, State.value?_set]
      simp [hregisters]
    simp only [Step.run, Instr.step, hleast, State.bit?_set_self, s₃, s₄, Bool.decide_and]
  -- Each of the two guards either ends the run or leaves the state as it is.
  by_cases hzero : b = 0
  · have hguard : (Step.guard (.register isZero) .divisionByZero holds₁ fails₁).run s₁ =
        .halt (.ofStatus .divisionByZero) s₁ := by
      simp [Step.run, s₁, State.bit?_set_self, hzero]
    refine ⟨s₁, rfl, hframe₁.mono (by simp), ?_⟩
    rw [divisionChecks, if_pos hzero, runSteps_cons_of_go hstep₁, runSteps_cons_of_halt hguard]
  · have hguard : (Step.guard (.register isZero) .divisionByZero holds₁ fails₁).run s₁ =
        .go s₁ := by
      simp [Step.run, s₁, State.bit?_set_self, hzero]
    refine ⟨s₄, rfl, hframe₄, ?_⟩
    rw [divisionChecks, if_neg hzero, runSteps_cons_of_go hstep₁, runSteps_cons_of_go hguard,
      runSteps_cons_of_go hstep₂, runSteps_cons_of_go hstep₃, runSteps_cons_of_go hstep₄]
    by_cases hoverflow : a = Word.minValue ∧ b = -1
    · rw [if_pos hoverflow]
      refine runSteps_cons_of_halt ?_
      simp only [Step.run, s₄, State.bit?_set_self, decide_eq_true hoverflow]
    · rw [if_neg hoverflow]
      refine (runSteps_cons_of_go ?_).trans rfl
      simp only [Step.run, s₄, State.bit?_set_self, decide_eq_false hoverflow]

/-- The steps of an operation end as the operation does, if its operands hold words and are none of
the registers that the steps set. -/
theorem BinaryOp.Code.simulates {operator : Operator} {left right value : Operand}
    {steps : List Step} (h : operator.op.Code left right steps value)
    (hnames : (steps.flatMap Step.names).Nodup) {s : State} {a b : Int}
    (hleft : s.word? left = some (BitVec.ofInt 32 a))
    (hright : s.word? right = some (BitVec.ofInt 32 b)) (ha : Word.InRange a) (hb : Word.InRange b)
    (hleftNames : ∀ name ∈ steps.flatMap Step.dests, left ≠ .register name)
    (hrightNames : ∀ name ∈ steps.flatMap Step.dests, right ≠ .register name) :
    Simulates steps value s (operator.apply a b) := by
  obtain ⟨op, shown, position⟩ := operator
  dsimp only at h
  cases h with
  | plain hop dest =>
    cases happly : op.apply a b with
    | ok result =>
      rw [Operator.apply, happly]
      exact simulates_arith hleft hright ha hb happly dest
    | error fault =>
      -- Only division has faults.
      cases op <;> contradiction
  | div isZero isLeast isMinusOne overflows dest holds₁ fails₁ holds₂ fails₂ =>
    have hregisters : isLeast ≠ isMinusOne := by
      rintro rfl
      simp [divisionChecks, Step.names, Instr.dest?] at hnames
    have hsubset {operand : Operand}
        (h : ∀ name ∈ [isZero, isLeast, isMinusOne, overflows, dest], operand ≠ .register name) :
        ∀ name ∈ [isZero, isLeast, isMinusOne, overflows], operand ≠ .register name :=
      fun name hname => h name (List.subset_append_left _ [dest] hname)
    obtain ⟨t, hprinted, hframe, hchecks⟩ := runSteps_divisionChecks hleft hright ha hb
      holds₁ fails₁ holds₂ fails₂ hregisters (hsubset hleftNames) (hsubset hrightNames)
    rw [Operator.apply, apply]
    split_ifs with hzero hoverflow
    · rw [if_pos hzero] at hchecks
      exact .fault (runSteps_append_of_halt hchecks) rfl hprinted
    · rw [if_neg hzero, if_pos hoverflow] at hchecks
      exact .fault (runSteps_append_of_halt hchecks) rfl hprinted
    · rw [if_neg hzero, if_neg hoverflow] at hchecks
      have hdiv : BinaryOp.apply .div a b = .ok (Word.quotient a b) := by
        rw [apply, if_neg hzero, if_neg hoverflow]
      -- The checks leave the operands as they are.
      have hleftWord := (hframe.word? (hsubset hleftNames)).trans hleft
      have hrightWord := (hframe.word? (hsubset hrightNames)).trans hright
      have hsilent : t.printed = [].reverse ++ s.printed := hprinted
      exact .append_of_go hchecks hsilent hframe
        (simulates_arith hleftWord hrightWord ha hb hdiv dest)

/-! ### Trees -/

/-- A value that is set before some steps is none of the registers that they set, if all names are
distinct. -/
theorem IR.ne_register_of_inScope {first second : List Step}
    (hnames : ((first ++ second).flatMap Step.names).Nodup) {operand : Operand}
    (hscope : operand.InScope (first.flatMap Step.dests)) :
    ∀ name ∈ second.flatMap Step.dests, operand ≠ .register name := by
  have hsubset (steps : List Step) : steps.flatMap Step.dests ⊆ steps.flatMap Step.names :=
    fun name hname => by
      obtain ⟨step, hstep, hdest⟩ := List.mem_flatMap.1 hname
      exact List.mem_flatMap.2 ⟨step, hstep, step.dests_subset_names hdest⟩
  rw [List.flatMap_append] at hnames
  intro name hname hregister
  exact (List.nodup_append.1 hnames).2.2 _ (hsubset _ (hscope name hregister)) _
    (hsubset _ hname) rfl

/-- The steps that print a value print it and keep it. -/
theorem IR.simulates_print {value : Operand} {s : State} {result : Int} {format dest : String}
    (hword : s.word? value = some (BitVec.ofInt 32 result)) (hrange : Word.InRange result)
    (hvalue : ∀ name ∈ [format, dest], value ≠ .register name) :
    Simulates [.plain (.formatAddress format), .plain (.printf dest (.register format) value)]
      value s (.print result) := by
  let s₁ := s.set format .formatAddress
  have hframe : s.AgreesExcept [format] s₁ := .set s format _
  have hword₁ : s₁.word? value = some (BitVec.ofInt 32 result) := by
    rw [hframe.word? fun name hname => hvalue name (List.subset_append_left _ [dest] hname), hword]
  have hformat : s₁.value? (.register format) = some .formatAddress := by
    rw [State.value?_set, if_pos rfl]
  -- What the call gives back is the number of characters written; no step reads it.
  let written : Value := .word (BitVec.ofNat 32 ((toString result).length + 1))
  let s₂ : State := { s₁.set dest written with printed := result :: s.printed }
  have hframe₂ : s.AgreesExcept [format, dest] s₂ := hframe.trans (.set s₁ dest written)
  have hstep₁ : (Step.plain (.formatAddress format)).run s = .go s₁ := rfl
  have hstep₂ : (Step.plain (.printf dest (.register format) value)).run s₁ = .go s₂ := by
    simp only [Step.run, Instr.step, hword₁, hformat, Word.toInt_ofInt_of_inRange hrange]
    rfl
  rw [Trace.print_of_inRange hrange]
  refine .value ?_ ((hframe₂.word? hvalue).trans hword) hrange rfl hframe₂
  rw [runSteps_cons_of_go hstep₁, runSteps_cons_of_go hstep₂]
  rfl

/-- The steps of a tree end as the evaluation of the tree with reduced literals does. -/
theorem Expr.Code.simulates {e : Expr} {steps : List Step} {value : Operand}
    (h : e.Code steps value) (hnames : (steps.flatMap Step.names).Nodup) (s : State) :
    Simulates steps value s e.wrapLiterals.evalTree := by
  -- The state is arbitrary, so that each part can start where the part before it ends.
  induction h generalizing s with
  | num literal => exact .pure (Word.wrap_inRange _) (congrArg some (Word.ofInt_wrap _).symm)
  | @binary left right operator a b value leftSteps rightSteps opSteps hleft hright hop
      ihLeft ihRight =>
    have hrest := hnames
    rw [List.flatMap_append, List.nodup_append] at hrest
    have hlast := hrest.2.1
    rw [List.flatMap_append, List.nodup_append] at hlast
    -- The left value waits in its register, which no later step sets.
    have ha := ne_register_of_inScope hnames (hleft.scoped []).2
    have hb := ne_register_of_inScope hrest.2.1 (hright.scoped []).2
    rw [List.flatMap_append, List.forall_mem_append] at ha
    refine (ihLeft hrest.1 s).bind fun t x hframe hx hxRange => ?_
    refine (ihRight hlast.1 t).bind fun u y hframe' hy hyRange => ?_
    exact hop.simulates hlast.2.1 ((hframe'.word? ha.1).trans hx) hy hxRange hyRange ha.2 hb
  | print hbody format dest ih =>
    have hvalue := ne_register_of_inScope hnames (hbody.scoped []).2
    rw [List.flatMap_append, List.nodup_append] at hnames
    refine (ih hnames.1 s).bind fun t x _ hx hxRange => ?_
    exact simulates_print hx hxRange hvalue

end LineCalc
