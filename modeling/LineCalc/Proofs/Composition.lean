import LineCalc.Proofs.Running

/-!
# Texts put together

Two texts in parentheses with an operator between them are a text again. It ends with the first
fault of the parts, and else with what the operator makes of their values. The parts may stand
anywhere in the whole: how a text is read depends neither on its place nor on what stands before it.

* `joined`: the text that is put together.
* `reads_joined`: it stands for the operation on the trees of its parts.
* `runLine_joined`: how it ends.
-/

namespace LineCalc

open Grammar

/-- Two texts in parentheses, with an operator between them. -/
def joined (left : String) (op : BinaryOp) (right : String) : String :=
  "(" ++ left ++ ")" ++ op.symbol ++ "(" ++ right ++ ")"

theorem toList_joined (left : String) (op : BinaryOp) (right : String) :
    (joined left op right).toList =
      '(' :: (left.toList ++ [')']) ++ op.char :: '(' :: (right.toList ++ [')']) := by
  have hsymbol : op.symbol.toList = [op.char] := by cases op <;> decide
  simp [joined, hsymbol]

/-- The whole stands for the operation on the trees that its parts stand for. -/
theorem reads_joined {left right : String} {first second : Expr} (operator : Operator)
    (hleft : Reads .expr left.toList first) (hright : Reads .expr right.toList second) :
    Reads .line (joined left operator.op right).toList (.binary first operator second) := by
  have hterm {chars : List Char} {e : Expr} (h : Reads .factor chars e) : Reads .term chars e :=
    Reads.single h
  have hexpr {chars : List Char} {e : Expr} (h : Reads .term chars e) : Reads .expr chars e :=
    Reads.single h
  rw [toList_joined]
  -- In a sum both parts are terms; in a product the second one has to be a factor.
  cases hop : operator.op.isAdditive with
  | true => exact ((hexpr (hterm hleft.group)).link hop (hterm hright.group)).bare
  | false => exact (hexpr ((hterm hleft.group).link hop hright.group)).bare

/-! ### How a run ends -/

namespace Transcript

/-- The run ended with an arithmetic fault. -/
def FailsWith (t : Transcript) (fault : Fault) : Prop :=
  ∃ position, t.outcome = .error (.error (.arithmetic ⟨fault, position⟩))

/-- The run ended with the given value or the given fault. -/
inductive Shows (t : Transcript) : Except (Failure Fault) Int → Prop
  | value {v : Int} (h : t.outcome = .ok v) : Shows t (.ok v)
  | fault {fault : Fault} (h : t.FailsWith fault) : Shows t (.error (.error fault))

/-- The run ended for want of levels, whether that is reported or not. -/
def TooDeep (t : Transcript) : Prop :=
  t.outcome = .error (.defect .tooDeep) ∨
    ∃ e, t.outcome = .error (.error e) ∧ e.report.code = .nestingTooDeep

/-- The run ended with what an operation makes of two words: sums, differences and products wrap
around, and a division without a quotient among the words is a fault. -/
def Combines (t : Transcript) (op : BinaryOp) (a b : Int) : Prop :=
  match op with
  | .add => t.outcome = .ok (Word.wrap (a + b))
  | .sub => t.outcome = .ok (Word.wrap (a - b))
  | .mul => t.outcome = .ok (Word.wrap (a * b))
  | .div =>
    if b = 0 then t.FailsWith .divisionByZero
    else if a = Word.minValue ∧ b = -1 then t.FailsWith .divisionOverflow
    else t.outcome = .ok (a.tdiv b)

variable {t : Transcript} {a b : Int}

theorem Shows.outcome_eq {v : Int} (h : t.Shows (.ok v)) : t.outcome = .ok v := by
  cases h with
  | value h => exact h

theorem Shows.failsWith {fault : Fault} (h : t.Shows (.error (.error fault))) :
    t.FailsWith fault := by
  cases h with
  | fault h => exact h

/-- A run that has a value is not too deep. -/
theorem not_tooDeep {v : Int} (h : t.outcome = .ok v) : ¬t.TooDeep := by
  rintro (hdeep | ⟨e, herror, -⟩)
  · cases h.symm.trans hdeep
  · cases h.symm.trans herror

/-- A run that ends with the value or the fault of an operation ends with what that makes. -/
theorem Shows.combines {op : BinaryOp} (h : t.Shows ((op.apply a b).mapError .error)) :
    t.Combines op a b := by
  cases op with
  | add | sub | mul => exact h.outcome_eq
  | div =>
    rw [BinaryOp.apply] at h
    unfold Combines
    by_cases hzero : b = 0
    · rw [if_pos hzero] at h ⊢
      exact h.failsWith
    rw [if_neg hzero] at h ⊢
    by_cases hoverflow : a = Word.minValue ∧ b = -1
    · rw [if_pos hoverflow] at h ⊢
      exact h.failsWith
    · rw [if_neg hoverflow] at h ⊢
      exact h.outcome_eq

end Transcript

section

variable [Platform] {settings : Settings} {backend : Backend}

/-- A text that has a tree and is not too deep ends with the value or the fault of the tree. -/
theorem runLine_shows {text : String} {tree : Expr} (h : (settings.parse text).result = .ok tree)
    (hdeep : ¬(runLine text settings backend).TooDeep) :
    (runLine text settings backend).Shows tree.value := by
  rcases runLine_ends h backend with hends | ⟨-, houtcome⟩
  swap
  · exact absurd (.inl houtcome) hdeep
  generalize hresult : (runLine text settings backend).outcome = result at hends
  cases hends with
  | value hvalue =>
    rw [hvalue]
    exact .value hresult
  | fault hvalue position =>
    rw [hvalue]
    exact .fault ⟨position, hresult⟩
  | tooDeep =>
    refine absurd (.inr ⟨_, hresult, ?_⟩) hdeep
    cases backend <;> rfl

/-- A text that stands for a tree and is not too deep ends with the value or the fault of it. -/
theorem runLine_shows_of_reads {text : String} {e : Expr} (h : Reads .line text.toList e)
    (hdeep : ¬(runLine text settings backend).TooDeep) :
    (runLine text settings backend).Shows e.value := by
  rcases parse_of_reads_or_tooDeep h with ⟨tree, hparse, houtline⟩ | hparse
  · -- The tree that is parsed may have other places, but these do not matter for its value.
    have hvalue : tree.value = e.value := by
      rw [← Expr.value_outline, houtline, Expr.value_outline]
    rw [← hvalue]
    exact runLine_shows hparse hdeep
  · exact absurd (.inr ⟨_, outcome_runLine_of_error hparse backend, rfl⟩) hdeep

/-- Two texts without a print, in parentheses and with an operator between them, end with the fault
of the first one if it has one, then with that of the second one, and else with what the operator
makes of their values; if none of the three runs is too deep. -/
theorem runLine_joined {a b : String} {left right : Expr} (op : BinaryOp)
    (ha : (settings.parse a).result = .ok left) (hleft : left.isPrint = false)
    (hb : (settings.parse b).result = .ok right) (hright : right.isPrint = false)
    (haDeep : ¬(runLine a settings backend).TooDeep)
    (hbDeep : ¬(runLine b settings backend).TooDeep)
    (hdeep : ¬(runLine (joined a op b) settings backend).TooDeep) :
    (∃ fault, (runLine a settings backend).FailsWith fault ∧
        (runLine (joined a op b) settings backend).FailsWith fault) ∨
      (∃ va fault, (runLine a settings backend).outcome = .ok va ∧
        (runLine b settings backend).FailsWith fault ∧
        (runLine (joined a op b) settings backend).FailsWith fault) ∨
      ∃ va vb, (runLine a settings backend).outcome = .ok va ∧
        (runLine b settings backend).outcome = .ok vb ∧
        (runLine (joined a op b) settings backend).Combines op va vb := by
  have hfirst := runLine_shows ha haDeep
  have hsecond := runLine_shows hb hbDeep
  have hreads := reads_joined ⟨op, .absent, none⟩ (reads_of_parse ha hleft)
    (reads_of_parse hb hright)
  have hwhole := runLine_shows_of_reads hreads hdeep
  rw [Expr.value] at hwhole
  -- The operands are looked at from left to right, and the first fault decides.
  generalize left.value = first at hfirst hwhole
  generalize right.value = second at hsecond hwhole
  cases hfirst with
  | fault hfails => exact .inl ⟨_, hfails, hwhole.failsWith⟩
  | value haOk =>
    cases hsecond with
    | fault hfails => exact .inr (.inl ⟨_, _, haOk, hfails, hwhole.failsWith⟩)
    | value hbOk => exact .inr (.inr ⟨_, _, haOk, hbOk, hwhole.combines⟩)

end

open scoped Platform in
/-- The least word divided by a difference that is minus one, in compiled code. -/
theorem runLine_joined_overflow :
    let settings : Settings := {}
    let run (text : String) := runLine text settings .native
    (∃ left right, (settings.parse "-2147483648").result = .ok left ∧ left.isPrint = false ∧
        (settings.parse "1 - 2").result = .ok right ∧ right.isPrint = false) ∧
      (run "-2147483648").outcome = .ok Word.minValue ∧ (run "1 - 2").outcome = .ok (-1) ∧
      ¬(run (joined "-2147483648" .div "1 - 2")).TooDeep ∧
      (run (joined "-2147483648" .div "1 - 2")).FailsWith .divisionOverflow := by
  intro settings run
  have hleft : (settings.parse "-2147483648").result =
      .ok (.num ⟨2147483648, -2147483648, some ⟨1, 2⟩⟩) := by decide +kernel
  have hright : (settings.parse "1 - 2").result = .ok (.binary (.num ⟨1, 1, some ⟨1, 1⟩⟩)
      ⟨.sub, .text "-", some ⟨1, 3⟩⟩ (.num ⟨2, 2, some ⟨1, 5⟩⟩)) := by decide +kernel
  have hfirst : (run "-2147483648").outcome = .ok Word.minValue := by decide +kernel
  have hsecond : (run "1 - 2").outcome = .ok (-1) := by decide +kernel
  have hwhole : (run (joined "-2147483648" .div "1 - 2")).outcome =
      .error (.error (.arithmetic ⟨.divisionOverflow, none⟩)) := by decide +kernel
  have hdeep : ¬(run (joined "-2147483648" .div "1 - 2")).TooDeep := by
    rintro (h | ⟨e, h, hcode⟩) <;> cases hwhole.symm.trans h
    cases hcode
  refine ⟨⟨_, _, hleft, rfl, hright, rfl⟩, hfirst, hsecond, hdeep, ?_⟩
  rcases runLine_joined .div hleft rfl hright rfl (Transcript.not_tooDeep hfirst)
    (Transcript.not_tooDeep hsecond) hdeep with
    ⟨_, ⟨_, h⟩, -⟩ | ⟨_, _, -, ⟨_, h⟩, -⟩ | ⟨va, vb, hva, hvb, hcombines⟩
  · cases hfirst.symm.trans h
  · cases hsecond.symm.trans h
  · cases hfirst.symm.trans hva
    cases hsecond.symm.trans hvb
    exact hcombines

end LineCalc
