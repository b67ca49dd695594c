import LineCalc.Proofs.Monad
import LineCalc.Proofs.Walk
import LineCalc.Proofs.IR.Straight

/-!
# What emission appends

Emission extends a routine by a line of steps. Which steps these are is fixed by the tree alone, up
to the choice of names; the names are new ones, each given out once.

* `BinaryOp.Code` and `Expr.Code`: the steps that compute an operation and a tree.
* `Names.Grants`: names that are given out one after another.
* `Expr.emitTree_appends`: emission appends steps that compute the tree, under new names.
-/

namespace LineCalc

open IR

/-- The checks before a division: against a zero divisor, and then against a quotient that is no
word. -/
def IR.divisionChecks (left right : Operand)
    (isZero isLeast isMinusOne overflows holds₁ fails₁ holds₂ fails₂ : String) : List Step :=
  [.plain (.equal isZero right (.const 0)),
    .guard (.register isZero) .divisionByZero holds₁ fails₁,
    .plain (.equal isLeast left (.const Word.minValue)),
    .plain (.equal isMinusOne right (.const (-1))),
    .plain (.both overflows (.register isLeast) (.register isMinusOne)),
    .guard (.register overflows) .divisionOverflow holds₂ fails₂]

/-- Steps that compute an operation on two operands, and the operand that holds its value. -/
inductive BinaryOp.Code (left right : Operand) : BinaryOp → List Step → Operand → Prop
  | plain {op : BinaryOp} (hop : op ≠ .div) (dest : String) :
    Code left right op [.plain (.arith dest op left right)] (.register dest)
  | div (isZero isLeast isMinusOne overflows dest holds₁ fails₁ holds₂ fails₂ : String) :
    Code left right .div
      (divisionChecks left right isZero isLeast isMinusOne overflows holds₁ fails₁ holds₂ fails₂ ++
        [.plain (.arith dest .div left right)])
      (.register dest)

/-- Steps that compute a tree, and the operand that holds its value. -/
inductive Expr.Code : Expr → List Step → Operand → Prop
  | num (literal : Literal) : Code (.num literal) [] (.const literal.value)
  | binary {left right : Expr} {operator : Operator} {a b value : Operand}
      {leftSteps rightSteps opSteps : List Step}
      (hleft : Code left leftSteps a) (hright : Code right rightSteps b)
      (hop : BinaryOp.Code a b operator.op opSteps value) :
    Code (.binary left operator right) (leftSteps ++ (rightSteps ++ opSteps)) value
  | print {body : Expr} {position : Option Position} {value : Operand} {steps : List Step}
      (hbody : Code body steps value) (format dest : String) :
    Code (.print position body)
      (steps ++ [.plain (.formatAddress format), .plain (.printf dest (.register format) value)])
      value

namespace IR

/-! ### Granted names -/

/-- Some names are given out one after another: they are new and distinct, and taken afterwards. -/
structure Names.Grants (names : Names) (given : List String) (after : Names) : Prop where
  nodup : given.Nodup
  notMem : ∀ name ∈ given, name ∉ names.used
  mem : ∀ name ∈ given, name ∈ after.used
  mono : ∀ name ∈ names.used, name ∈ after.used

namespace Names.Grants

variable {names middle after : Names} {first second : List String}

theorem nil (names : Names) : names.Grants [] names :=
  ⟨List.nodup_nil, by simp, by simp, fun _ h => h⟩

/-- A name that is given out is new. -/
theorem fresh (names : Names) (base : String) :
    names.Grants [(names.fresh base).1] (names.fresh base).2 where
  nodup := by simp
  notMem := by simpa using names.fresh_notMem base
  mem := by simp [mem_used_fresh]
  mono := fun name h => (names.mem_used_fresh base name).2 (.inr h)

/-- A number that is used up is no name of anything. -/
theorem skip (names : Names) : names.Grants [] names.skip where
  nodup := List.nodup_nil
  notMem := by simp
  mem := by simp
  mono := (fresh names "").mono

/-- What is given out later differs from what was given out before. -/
theorem append (hfirst : names.Grants first middle) (hsecond : middle.Grants second after) :
    names.Grants (first ++ second) after where
  nodup := by
    refine List.nodup_append.2 ⟨hfirst.nodup, hsecond.nodup, ?_⟩
    rintro a ha b hb rfl
    exact hsecond.notMem a hb (hfirst.mem a ha)
  notMem := by
    intro name h hused
    rcases List.mem_append.1 h with h | h
    · exact hfirst.notMem name h hused
    · exact hsecond.notMem name h (hfirst.mono name hused)
  mem := by
    intro name h
    rcases List.mem_append.1 h with h | h
    · exact hsecond.mono name (hfirst.mem name h)
    · exact hsecond.mem name h
  mono := fun name h => hsecond.mono name (hfirst.mono name h)

end Names.Grants

/-! ### Appending steps -/

namespace Builder

/-- Append a step to a routine. -/
def add (b : Builder) : Step → Builder
  | .plain instr => { b with code := b.code.push instr }
  | .guard condition status holds fails =>
    { b with
      before := (b.before.push ⟨b.label, (b.code.push (.branch condition holds fails)).toList⟩).push
        ⟨holds, [.ret status.code]⟩
      label := fails
      code := #[] }

/-- Append steps to a routine. -/
def addAll (b : Builder) (steps : List Step) : Builder := steps.foldl add b

@[simp]
theorem addAll_nil (b : Builder) : b.addAll [] = b := rfl

@[simp]
theorem addAll_cons (b : Builder) (step : Step) (steps : List Step) :
    b.addAll (step :: steps) = (b.add step).addAll steps := rfl

theorem addAll_append (b : Builder) (first second : List Step) :
    b.addAll (first ++ second) = (b.addAll first).addAll second := List.foldl_append ..

/-- The same routine with another supply of names. -/
def withNames (b : Builder) (names : Names) : Builder := { b with names }

@[simp]
theorem isEnded_withNames (b : Builder) (names : Names) :
    (b.withNames names).isEnded = b.isEnded := rfl

@[simp]
theorem blocks_withNames (b : Builder) (names : Names) :
    (b.withNames names).blocks = b.blocks := rfl

theorem add_withNames (b : Builder) (names : Names) (step : Step) :
    (b.withNames names).add step = (b.add step).withNames names := by
  cases step <;> rfl

/-- The supply of names has no part in appending. -/
theorem addAll_withNames (b : Builder) (names : Names) (steps : List Step) :
    (b.withNames names).addAll steps = (b.addAll steps).withNames names := by
  induction steps generalizing b with
  | nil => rfl
  | cons step steps ih => rw [addAll_cons, add_withNames, ih, addAll_cons]

/-- Steps that end no block leave the current block open. -/
theorem isEnded_addAll {b : Builder} {steps : List Step} (hopen : b.isEnded = false)
    (hsteps : ∀ step ∈ steps, step.isTerminator = false) : (b.addAll steps).isEnded = false := by
  induction steps generalizing b with
  | nil => exact hopen
  | cons step steps ih =>
    -- Only the first step matters: the rest starts in the block that it leaves open.
    refine ih ?_ fun step hstep => hsteps step (List.mem_cons_of_mem _ hstep)
    have hstep := hsteps step List.mem_cons_self
    cases step with
    | plain instr =>
      simp only [isEnded, add, Array.any_push] at hopen ⊢
      simp_all [Step.isTerminator]
    | guard condition status holds fails => simp [isEnded, add]

/-- The blocks of an extended routine are those before, and the layout of what was appended. -/
theorem blocks_addAll (b : Builder) (steps : List Step) :
    (b.addAll steps).blocks =
      b.before.toList ++ layout b.label b.code.toList steps ++ b.after.toList := by
  induction steps generalizing b with
  | nil => simp [blocks, layout]
  | cons step steps ih => cases step <;> simp [ih, add, layout]

/-- A routine that starts empty is the layout of what is appended. -/
theorem blocks_init_addAll (steps : List Step) :
    (init.addAll steps).blocks = layout init.label [] steps := by
  rw [blocks_addAll]
  simp [init]

theorem isEnded_init : init.isEnded = false := by simp [init, isEnded]

/-- The first label is taken from the start. -/
theorem label_init_mem : init.label ∈ init.names.used :=
  (Names.mem_used_fresh Names.init.skip "entry" _).2 (.inl rfl)

end Builder

/-! ### Steps of emission -/

namespace Emit

variable {α β : Type} {b : Builder}

/-- From the routine `b`, a step of emission gives `a`, appends `steps` and leaves `names`. What it
appends ends no block, and every name in it is a new one. -/
structure Appends (m : Emit α) (b : Builder) (a : α) (steps : List Step) (names : Names) :
    Prop where
  run : m b = (.ok a, (b.addAll steps).withNames names)
  grants : b.names.Grants (steps.flatMap Step.names) names
  goesOn : ∀ step ∈ steps, step.isTerminator = false

namespace Appends

theorem pure (a : α) (b : Builder) : Appends (Pure.pure a) b a [] b.names :=
  ⟨rfl, .nil _, by simp⟩

/-- A step that appends only steps which end no block leaves the current block open. -/
theorem isEnded {m : Emit α} {a : α} {steps : List Step} {names : Names}
    (h : Appends m b a steps names) (hopen : b.isEnded = false) :
    ((b.addAll steps).withNames names).isEnded = false := by
  rw [Builder.isEnded_withNames]
  exact Builder.isEnded_addAll hopen h.goesOn

/-- Two steps of emission append one after the other. -/
theorem bind {m : Emit α} {f : α → Emit β} {a : α} {c : β} {first second : List Step}
    {middle after : Names} (hm : Appends m b a first middle)
    (hf : Appends (f a) ((b.addAll first).withNames middle) c second after) :
    Appends (m >>= f) b c (first ++ second) after where
  run := by
    -- The names that the first step leaves are those that the second one starts with.
    rw [bind_of_ok hm.run, hf.run, Builder.addAll_withNames, ← Builder.addAll_append]
    rfl
  grants := by
    rw [List.flatMap_append]
    exact hm.grants.append hf.grants
  goesOn := by
    intro step h
    rcases List.mem_append.1 h with h | h
    · exact hm.goesOn step h
    · exact hf.goesOn step h

/-- An instruction that sets a register sets one with a new name. -/
theorem define (b : Builder) (base : String) (instr : String → Instr)
    (hdest : ∀ name, (instr name).dest? = some name)
    (hterminator : ∀ name, (instr name).isTerminator = false) :
    ∃ name names, Appends (Emit.define base instr) b (.register name) [.plain (instr name)] names :=
  ⟨(b.names.fresh base).1, (b.names.fresh base).2,
    { run := rfl
      grants := by simpa [Step.names, hdest] using Names.Grants.fresh b.names base
      goesOn := by simpa [Step.isTerminator] using hterminator _ }⟩

/-- An instruction that sets no register is appended as it is. -/
theorem effect (b : Builder) (instr : Instr) (hdest : instr.dest? = none)
    (hterminator : instr.isTerminator = false) :
    Appends (Emit.effect instr) b () [.plain instr] b.names.skip where
  run := rfl
  grants := by simpa [Step.names, hdest] using Names.Grants.skip b.names
  goesOn := by simpa [Step.isTerminator] using hterminator

/-- A guard goes on in a new block. Its two labels are new, though both start with the label of the
block that it ends. -/
theorem guard (hopen : b.isEnded = false) (condition : Operand) (status : ExitStatus) :
    ∃ holds fails names,
      Appends (Emit.guard condition status) b () [.guard condition status holds fails] names := by
  have hholds := Names.Grants.fresh b.names (Builder.stem b.label ++ ".if")
  have hfails := Names.Grants.fresh (b.names.fresh (Builder.stem b.label ++ ".if")).2
    (Builder.stem b.label ++ ".endif")
  -- The branch and the return use up one number each.
  have hnumbers := ((hholds.append hfails).append (.skip _)).append (.skip _)
  refine ⟨_, _, _, ?_, hnumbers, by simp [Step.isTerminator]⟩
  simp only [Emit.guard, hopen]
  rfl

end Appends

/-- The checks of a division append two guards. -/
theorem divisionGuards_appends (left right : Operand) (hopen : b.isEnded = false) :
    ∃ isZero isLeast isMinusOne overflows holds₁ fails₁ holds₂ fails₂ names,
      Appends (Emit.divisionGuards left right) b ()
        (divisionChecks left right isZero isLeast isMinusOne overflows holds₁ fails₁ holds₂ fails₂)
        names := by
  -- Only a guard needs an open block, but each step has to keep it open for the next guard.
  obtain ⟨isZero, _, hzero⟩ := Appends.define b "divzero" (.equal · right (.const 0))
    (fun _ => rfl) (fun _ => rfl)
  have hopen := hzero.isEnded hopen
  obtain ⟨holds₁, fails₁, _, hguard₁⟩ := Appends.guard hopen (.register isZero) .divisionByZero
  have hopen := hguard₁.isEnded hopen
  obtain ⟨isLeast, _, hleast⟩ := Appends.define _ "" (.equal · left (.const Word.minValue))
    (fun _ => rfl) (fun _ => rfl)
  have hopen := hleast.isEnded hopen
  obtain ⟨isMinusOne, _, hminusOne⟩ := Appends.define _ "" (.equal · right (.const (-1)))
    (fun _ => rfl) (fun _ => rfl)
  have hopen := hminusOne.isEnded hopen
  obtain ⟨overflows, _, hboth⟩ := Appends.define _ "divoverflow"
    (.both · (.register isLeast) (.register isMinusOne)) (fun _ => rfl) (fun _ => rfl)
  have hopen := hboth.isEnded hopen
  obtain ⟨holds₂, fails₂, names, hguard₂⟩ :=
    Appends.guard hopen (.register overflows) .divisionOverflow
  exact ⟨isZero, isLeast, isMinusOne, overflows, holds₁, fails₁, holds₂, fails₂, names,
    hzero.bind (hguard₁.bind (hleast.bind (hminusOne.bind (hboth.bind hguard₂))))⟩

/-- An operation appends the steps that compute it. -/
theorem operation_appends (op : BinaryOp) (left right : Operand) (hopen : b.isEnded = false) :
    ∃ value steps names, Appends (Emit.operation op left right) b value steps names ∧
      op.Code left right steps value := by
  by_cases hop : op = .div
  · subst hop
    obtain ⟨isZero, isLeast, isMinusOne, overflows, holds₁, fails₁, holds₂, fails₂, _, hguards⟩ :=
      divisionGuards_appends left right hopen
    obtain ⟨dest, names, hdest⟩ := Appends.define _ (Builder.resultName .div)
      (.arith · .div left right) (fun _ => rfl) (fun _ => rfl)
    exact ⟨_, _, names, hguards.bind hdest, .div ..⟩
  · obtain ⟨dest, names, hdest⟩ := Appends.define b (Builder.resultName op)
      (.arith · op left right) (fun _ => rfl) (fun _ => rfl)
    refine ⟨_, _, names, ?_, .plain hop dest⟩
    simpa [Emit.operation, hop] using hdest

/-- Printing appends the steps that print a value. -/
theorem print_appends (value : Operand) (b : Builder) :
    ∃ format dest names, Appends (Emit.print value) b ()
      [.plain (.formatAddress format), .plain (.printf dest (.register format) value)] names := by
  obtain ⟨format, _, hformat⟩ := Appends.define b "" .formatAddress (fun _ => rfl) (fun _ => rfl)
  obtain ⟨dest, names, hdest⟩ := Appends.define _ "printf_call"
    (.printf · (.register format) value) (fun _ => rfl) (fun _ => rfl)
  exact ⟨format, dest, names, hformat.bind (hdest.bind (.pure () _))⟩

/-- Ending a routine appends the steps that set the result and return. -/
theorem finish_eq (value : Operand) (hopen : b.isEnded = false) :
    ∃ names, Emit.finish value b =
      (.ok (), (b.addAll [.plain (.store value), .plain (.ret 0)]).withNames names) := by
  have hstore := Appends.effect b (.store value) rfl rfl
  have hopen := hstore.isEnded hopen
  refine ⟨b.names.skip.skip, ?_⟩
  rw [Emit.finish, bind_of_ok hstore.run, Emit.terminate, hopen]
  rfl

/-- Ending a routine that started empty gives the layout of what was appended. -/
theorem Appends.finish_init {m : Emit Operand} {value : Operand} {steps : List Step}
    {names : Names} (h : Appends m Builder.init value steps names) :
    ∃ after, Emit.finish value ((Builder.init.addAll steps).withNames names) = (.ok (), after) ∧
      after.blocks =
        layout Builder.init.label [] (steps ++ [.plain (.store value), .plain (.ret 0)]) := by
  obtain ⟨_, hfinish⟩ := finish_eq value (h.isEnded Builder.isEnded_init)
  refine ⟨_, hfinish, ?_⟩
  rw [Builder.blocks_withNames, Builder.addAll_withNames, ← Builder.addAll_append,
    Builder.blocks_withNames, Builder.blocks_init_addAll]

/-- What is appended to an empty routine is named apart from its first label. -/
theorem Appends.nodup_init {α : Type} {m : Emit α} {a : α} {steps : List Step} {names : Names}
    (h : Appends m Builder.init a steps names) :
    (Builder.init.label :: steps.flatMap Step.names).Nodup := by
  -- New names differ from all that are taken, and the first label is.
  refine List.nodup_cons.2 ⟨fun hmem => ?_, h.grants.nodup⟩
  exact h.grants.notMem _ hmem Builder.label_init_mem

end Emit

end IR

/-- Emission appends steps that compute the tree, under new names. -/
theorem Expr.emitTree_appends {e : Expr} (hknown : e.isKnown = true) {b : Builder}
    (hopen : b.isEnded = false) :
    ∃ value steps names, Emit.Appends e.emitTree b value steps names ∧ e.Code steps value := by
  induction e generalizing b with
  | num literal => exact ⟨_, _, _, .pure _ _, .num literal⟩
  | unknown name => cases hknown
  | binary left operator right ihLeft ihRight =>
    rw [isKnown, Bool.and_eq_true] at hknown
    -- Each part starts with the routine that the part before it leaves.
    obtain ⟨a, leftSteps, _, hleft, hleftCode⟩ := ihLeft hknown.1 hopen
    have hopen := hleft.isEnded hopen
    obtain ⟨c, rightSteps, _, hright, hrightCode⟩ := ihRight hknown.2 hopen
    have hopen := hright.isEnded hopen
    obtain ⟨value, opSteps, names, hop, hopCode⟩ := Emit.operation_appends operator.op a c hopen
    exact ⟨value, _, names, hleft.bind (hright.bind hop), .binary hleftCode hrightCode hopCode⟩
  | print position body ih =>
    obtain ⟨value, steps, _, hbody, hbodyCode⟩ := ih hknown hopen
    obtain ⟨format, dest, names, hprint⟩ := Emit.print_appends value _
    refine ⟨value, _, names, hbody.bind ?_, .print hbodyCode format dest⟩
    exact hprint.bind (.pure value _)

/-- A tree that a walk can take in is compiled to the layout of steps that compute it. -/
theorem Expr.compile_eq_layout [Platform] {e : Expr} (hknown : e.isKnown = true)
    (hdepth : e.depth ≤ walkLimit) :
    ∃ value steps, e.Code steps value ∧
      (Builder.init.label :: steps.flatMap Step.names).Nodup ∧
      (∀ step ∈ steps, step.isTerminator = false) ∧
      ∀ name, e.compile name = .ok ⟨name, some (layout Builder.init.label []
        (steps ++ [.plain (.store value), .plain (.ret 0)]))⟩ := by
  obtain ⟨value, steps, names, happends, hcode⟩ := emitTree_appends hknown Builder.isEnded_init
  obtain ⟨after, hfinish, hblocks⟩ := happends.finish_init
  refine ⟨value, steps, hcode, happends.nodup_init, happends.goesOn, fun name => ?_⟩
  rw [compile, emitRoutine, emit_eq_emitTree hdepth, bind_of_ok happends.run, hfinish, ← hblocks]

end LineCalc
