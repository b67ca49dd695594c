import LineCalc.Proofs.IR.Emission
import LineCalc.Proofs.Walk

/-!
# Walks that run out of levels

A tree may need more levels than a walk has. The walk then ends with that, unless it ends for
another reason before it comes to the part that is too deep; in all other cases it is plain
recursion. An evaluation may meet a fault first, while compilation and drawing take in the whole of
a tree.

* `Expr.leftSpine_induct`: what each step along a left spine keeps holds of the whole walk.
* `Expr.evalWithin_or_tooDeep`, `Expr.emitWithin_keeps`: a walk runs out of levels or is plain
  recursion.
* `Expr.depth_le_of_evalWithin`: an evaluation to a value has not run out of levels.
* `Expr.depth_le_or_compile_tooDeep`: a tree is compiled only if a walk can take it in.
* `Expr.chartTree_of_chartWithin`: and so it is drawn.
-/

namespace LineCalc

open IR

/-! ### Left spines -/

/-- What holds of a walk at the bottom of a left spine, and is kept by every step along it, holds of
the whole walk. -/
theorem Expr.leftSpine_induct {β : Type} {walk : Expr → β} {step : β → Link → β}
    {P : β → Expr → Prop} (hbase : ∀ e : Expr, e.isBinary = false → P (walk e) e)
    (hstep : ∀ (value : β) (left : Expr) (operator : Operator) (right : Expr), P value left →
      P (step value ⟨operator, right⟩) (.binary left operator right))
    (e : Expr) : P (e.leftSpine.links.foldl step (walk e.leftSpine.base)) e := by
  -- The operations above the tree are still to be done, and what they start with has the property.
  have hbelow : ∀ (e : Expr) (above : List Link), ∃ value, P value e ∧
      (e.spineBelow above).links.foldl step (walk (e.spineBelow above).base) =
        above.foldl step value := by
    intro e
    induction e with
    | binary left operator right ihLeft _ =>
      intro above
      obtain ⟨value, hvalue, hfold⟩ := ihLeft (⟨operator, right⟩ :: above)
      exact ⟨_, hstep value left operator right hvalue, hfold⟩
    | num literal => exact fun above => ⟨_, hbase _ rfl, rfl⟩
    | print position body => exact fun above => ⟨_, hbase _ rfl, rfl⟩
    | unknown name => exact fun above => ⟨_, hbase _ rfl, rfl⟩
  obtain ⟨value, hvalue, hfold⟩ := hbelow e []
  rw [leftSpine, hfold]
  exact hvalue

/-! ### Evaluation -/

namespace Trace

variable {α β : Type} {t : Trace α} {f : α → Trace β}

/-- A failure is the failure of the whole. -/
theorem bind_of_failure {failure : Failure ArithmeticError} (h : t.outcome = .error failure) :
    t.bind f = ⟨t.printed, .error failure⟩ := by
  rw [bind, h]

/-- After a result the whole ends as the rest does. -/
theorem bind_of_result {a : α} (h : t.outcome = .ok a) :
    t.bind f = ⟨t.printed ++ (f a).printed, (f a).outcome⟩ := by
  rw [bind, h]

/-- A sequence that fails has failed in its first part, or behind a result of that. -/
theorem failure_of_bind {failure : Failure ArithmeticError}
    (h : (t.bind f).outcome = .error failure) :
    t.outcome = .error failure ∨ ∃ a, t.outcome = .ok a ∧ (f a).outcome = .error failure := by
  cases houtcome : t.outcome with
  | error other =>
    rw [bind_of_failure houtcome] at h
    cases h
    exact .inl rfl
  | ok a =>
    rw [bind_of_result houtcome] at h
    exact .inr ⟨a, rfl, h⟩

/-- A sequence with a result has one of its first part, too. -/
theorem result_of_bind {b : β} (h : (t.bind f).outcome = .ok b) :
    ∃ a, t.outcome = .ok a ∧ (f a).outcome = .ok b := by
  cases houtcome : t.outcome with
  | error failure =>
    rw [bind_of_failure houtcome] at h
    cases h
  | ok a =>
    rw [bind_of_result houtcome] at h
    exact ⟨a, rfl, h⟩

/-- Two continuations may differ in a part that runs out of levels. -/
theorem bind_or_tooDeep {g : α → Trace β}
    (h : ∀ a, (f a).outcome = .error (.defect .tooDeep) ∨ f a = g a) :
    (t.bind f).outcome = .error (.defect .tooDeep) ∨ t.bind f = t.bind g := by
  cases houtcome : t.outcome with
  | error failure =>
    right
    rw [bind_of_failure houtcome, bind_of_failure houtcome]
  | ok a =>
    rw [bind_of_result houtcome, bind_of_result houtcome]
    rcases h a with hdeep | hsame
    · exact .inl hdeep
    · exact .inr (by rw [hsame])

end Trace

/-- An evaluation runs out of levels or is plain recursion. -/
theorem Expr.evalWithin_or_tooDeep (levels : Nat) (e : Expr) :
    (e.evalWithin levels).outcome = .error (.defect .tooDeep) ∨
      e.evalWithin levels = e.evalTree := by
  induction levels generalizing e with
  | zero => exact .inl rfl
  | succ levels ih =>
    cases e with
    | num literal => exact .inr rfl
    | unknown name => exact .inr rfl
    | print position body =>
      rcases ih body with hdeep | hsame
      · left
        rw [evalWithin, Trace.bind_of_failure hdeep]
      · right
        rw [evalWithin, evalTree, hsame]
    | binary left operator right =>
      rw [evalWithin]
      refine leftSpine_induct (P := fun value e =>
        value.outcome = .error (.defect .tooDeep) ∨ value = e.evalTree) (fun e _ => ih e) ?_ _
      intro value left operator right hvalue
      rcases hvalue with hdeep | rfl
      · exact .inl (by rw [Trace.bind_of_failure hdeep])
      · -- The right operand may run out, but only after the left one has a value.
        refine Trace.bind_or_tooDeep fun a => ?_
        rcases ih right with hdeep | hsame
        · exact .inl (by rw [Trace.bind_of_failure hdeep])
        · exact .inr (by rw [hsame])

/-- An evaluation with a value had the levels it needed. -/
theorem Expr.depth_le_of_evalWithin {levels : Nat} {e : Expr} {v : Int}
    (h : (e.evalWithin levels).outcome = .ok v) : e.depth ≤ levels := by
  induction levels generalizing e v with
  | zero => cases h
  | succ levels ih =>
    cases e with
    | num literal => simp [depth]
    | unknown name => cases h
    | print position body =>
      obtain ⟨a, hbody, -⟩ := Trace.result_of_bind h
      exact Nat.succ_le_succ (ih hbody)
    | binary left operator right =>
      rw [evalWithin] at h
      revert h
      -- A left operand that is no operation is one level down, like every right operand.
      refine leftSpine_induct (P := fun (value : Trace Int) e => ∀ v, value.outcome = .ok v →
        (if e.isBinary then e.depth else e.depth + 1) ≤ levels + 1) ?_ ?_ _ v
      · intro e hbase v hvalue
        rw [hbase]
        exact Nat.succ_le_succ (ih hvalue)
      · intro value left operator right hleft v h
        obtain ⟨a, hvalue, hrest⟩ := Trace.result_of_bind h
        obtain ⟨b, hright, -⟩ := Trace.result_of_bind hrest
        exact Nat.max_le.2 ⟨hleft a hvalue, Nat.succ_le_succ (ih hright)⟩

/-! ### Compilation -/

/-- A part of an emission runs out of levels, or it does the same as another one, and only if the
given bound is kept it comes to a result. -/
def IR.Emit.Keeps {α : Type} (m other : Emit α) (bound : Prop) : Prop :=
  ∀ b, (m b).1 = .error .tooDeep ∨ m b = other b ∧ ∀ a after, m b = (.ok a, after) → bound

/-- In a sequence, both parts keep to their bounds. -/
theorem IR.Emit.Keeps.bind {α β : Type} {m other : Emit α} {f g : α → Emit β} {first second : Prop}
    (hm : Keeps m other first) (hf : ∀ a, Keeps (f a) (g a) second) :
    Keeps (m >>= f) (other >>= g) (first ∧ second) := by
  intro b
  generalize hresult : m b = result
  obtain ⟨outcome, middle⟩ := result
  rcases hm b with hdeep | ⟨hsame, hbound⟩
  · obtain rfl : outcome = .error .tooDeep := by rwa [hresult] at hdeep
    exact .inl (by rw [bind_of_error hresult])
  · cases outcome with
    | error defect =>
      -- Another failure of the first part is that of both sequences.
      right
      rw [bind_of_error hresult, bind_of_error (hsame ▸ hresult)]
      exact ⟨rfl, fun a after h => by cases h⟩
    | ok a =>
      rw [bind_of_ok hresult, bind_of_ok (hsame ▸ hresult)]
      rcases hf a middle with hdeep | ⟨hsame', hbound'⟩
      · exact .inl hdeep
      · exact .inr ⟨hsame', fun c after h => ⟨hbound a middle hresult, hbound' c after h⟩⟩

/-- What is the same on both sides keeps any bound that holds. -/
theorem IR.Emit.Keeps.refl {α : Type} (m : Emit α) {bound : Prop} (h : bound) : Keeps m m bound :=
  fun _ => .inr ⟨rfl, fun _ _ _ => h⟩

theorem IR.Emit.Keeps.imp {α : Type} {m other : Emit α} {first second : Prop}
    (h : Keeps m other first) (himp : first → second) : Keeps m other second := by
  intro b
  rcases h b with hdeep | ⟨hsame, hbound⟩
  · exact .inl hdeep
  · exact .inr ⟨hsame, fun a after hok => himp (hbound a after hok)⟩

/-- A compilation runs out of levels or is plain recursion, and it comes to an operand only if the
levels suffice. -/
theorem Expr.emitWithin_keeps (levels : Nat) (e : Expr) :
    Emit.Keeps (e.emitWithin levels) e.emitTree (e.depth ≤ levels) := by
  induction levels generalizing e with
  | zero => exact fun b => .inl rfl
  | succ levels ih =>
    cases e with
    | num literal => exact .refl _ (by simp [depth])
    | unknown name => exact .refl _ (by simp [depth])
    | print position body =>
      rw [emitWithin, emitTree]
      refine ((ih body).bind fun value => .refl _ trivial).imp fun h => ?_
      simpa [depth] using h.1
    | binary left operator right =>
      rw [emitWithin, bind_foldlM]
      refine leftSpine_induct (P := fun m e => Emit.Keeps m e.emitTree
        ((if e.isBinary then e.depth else e.depth + 1) ≤ levels + 1)) ?_ ?_ (.binary _ _ _)
      · intro e hbinary
        refine (ih e).imp fun h => ?_
        simpa [hbinary] using h
      · intro m left operator right hleft
        rw [emitTree]
        refine (hleft.bind fun a => (ih right).bind fun c => .refl _ trivial).imp fun h => ?_
        obtain ⟨hleftDepth, hrightDepth, -⟩ := h
        rw [isBinary, if_pos rfl, depth]
        exact Nat.max_le.2 ⟨hleftDepth, by omega⟩

/-- A tree is compiled if a walk can take it in, and else the levels run out. -/
theorem Expr.depth_le_or_compile_tooDeep [Platform] {e : Expr} (hknown : e.isKnown = true)
    (name : String) : e.depth ≤ walkLimit ∨ e.compile name = .error .tooDeep := by
  rcases emitWithin_keeps walkLimit e Builder.init with hdeep | ⟨hsame, hbound⟩
  · right
    have hemit : e.emit Builder.init = (.error .tooDeep, (e.emit Builder.init).2) := by
      rw [← hdeep]
      rfl
    rw [compile, emitRoutine, bind_of_error hemit]
  · -- Plain recursion fails on no tree of known nodes, so there is an operand.
    left
    obtain ⟨value, steps, names, happends, -⟩ := emitTree_appends hknown Builder.isEnded_init
    exact hbound value _ (hsame.trans happends.run)

/-! ### Drawing -/

/-- A tree that has a chart is drawn by plain recursion, and its walk had the levels it needed. -/
theorem Expr.chartTree_of_chartWithin {levels : Nat} {e : Expr} {root : ChartNode}
    (h : e.chartWithin levels = .ok root) : e.chartTree = .ok root ∧ e.depth ≤ levels := by
  induction levels generalizing e root with
  | zero => cases h
  | succ levels ih =>
    cases e with
    | num literal => exact ⟨h, by simp [depth]⟩
    | unknown name => cases h
    | print position body =>
      obtain ⟨child, hchild, hroot⟩ := ok_of_bind_ok h
      obtain ⟨hbody, hdepth⟩ := ih hchild
      refine ⟨?_, Nat.succ_le_succ hdepth⟩
      rw [chartTree, hbody]
      exact hroot
    | binary left operator right =>
      rw [chartWithin, bind_foldlM] at h
      revert h
      -- A left operand that is no operation is one level down, like every right operand.
      refine leftSpine_induct (P := fun (drawn : Except Defect ChartNode) e =>
        ∀ root, drawn = .ok root → e.chartTree = .ok root ∧
          (if e.isBinary then e.depth else e.depth + 1) ≤ levels + 1) ?_ ?_ _ root
      · intro e hbase root hdrawn
        obtain ⟨htree, hdepth⟩ := ih hdrawn
        exact ⟨htree, by rw [hbase]; exact Nat.succ_le_succ hdepth⟩
      · intro drawn left operator right hdrawn root h
        obtain ⟨a, ha, hrest⟩ := ok_of_bind_ok h
        obtain ⟨name, hname, hrest⟩ := ok_of_bind_ok hrest
        obtain ⟨b, hb, hroot⟩ := ok_of_bind_ok hrest
        obtain ⟨hleft, hleftDepth⟩ := hdrawn a ha
        obtain ⟨hright, hrightDepth⟩ := ih hb
        refine ⟨?_, Nat.max_le.2 ⟨hleftDepth, Nat.succ_le_succ hrightDepth⟩⟩
        rw [chartTree, hleft, hname, hright]
        exact hroot

end LineCalc
