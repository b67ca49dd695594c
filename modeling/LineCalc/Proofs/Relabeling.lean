import LineCalc.Proofs.Outline
import LineCalc.Proofs.Walk

/-!
# Trees with other nodes

The nodes of a tree can be replaced by others while its shape is kept. What a walk does then depends
on a part of each node only: evaluation and compilation on the values and the operations, drawing on
the values and on how the operators are shown. Places play no part, but for the one that an error
names.

* `Expr.relabel`: the tree with other nodes.
* `Expr.leftSpine_relabel`: its left spine is that of the tree, with other nodes.
* `Expr.evalWithin_relabel`, `Expr.emitWithin_relabel`, `Expr.chartWithin_relabel`: what the walks
  depend on.
* `Expr.eval_eq_of_outline_eq`: trees with the same outline are evaluated alike.
-/

namespace LineCalc

open IR

/-- How the nodes of a tree are replaced. -/
structure Relabeling where
  /-- What a number is replaced by. -/
  literal : Literal → Literal
  /-- What an operator is replaced by. -/
  operator : Operator → Operator
  /-- What the place of a print is replaced by. -/
  place : Option Position → Option Position

namespace Relabeling

/-- Numbers keep their values, and operators their operations. -/
structure KeepsMeaning (r : Relabeling) : Prop where
  value : ∀ literal, (r.literal literal).value = literal.value
  op : ∀ operator, (r.operator operator).op = operator.op

/-- Numbers keep their values, and operators are shown as before. -/
structure KeepsNames (r : Relabeling) : Prop where
  value : ∀ literal, (r.literal literal).value = literal.value
  shown : ∀ operator, (r.operator operator).shown = operator.shown

/-- Only values and operations are left of the nodes. -/
def outline : Relabeling where
  literal literal := ⟨literal.value, literal.value, none⟩
  operator operator := ⟨operator.op, .absent, none⟩
  place _ := none

theorem outline_keepsMeaning : outline.KeepsMeaning := ⟨fun _ => rfl, fun _ => rfl⟩

end Relabeling

namespace Expr

variable {r : Relabeling}

/-- The tree with its nodes replaced. -/
def relabel (r : Relabeling) : Expr → Expr
  | .num literal => .num (r.literal literal)
  | .binary left operator right =>
    .binary (left.relabel r) (r.operator operator) (right.relabel r)
  | .print position body => .print (r.place position) (body.relabel r)
  | .unknown name => .unknown name

theorem outline_eq_relabel (e : Expr) : e.outline = e.relabel .outline := by
  induction e with
  | num literal => rfl
  | binary left operator right ihLeft ihRight => rw [outline, relabel, ihLeft, ihRight]; rfl
  | print position body ih => rw [outline, relabel, ih]; rfl
  | unknown name => rfl

/-! ### Left spines -/

/-- An operation along a left edge, with its nodes replaced. -/
def Link.relabel (r : Relabeling) (link : Link) : Link :=
  ⟨r.operator link.operator, link.right.relabel r⟩

/-- The left edge of a relabelled tree is the relabelled left edge. -/
theorem leftSpine_relabel (r : Relabeling) (e : Expr) :
    (e.relabel r).leftSpine =
      ⟨e.leftSpine.base.relabel r, e.leftSpine.links.map (Link.relabel r)⟩ := by
  have hbelow (above : List Link) : (e.relabel r).spineBelow (above.map (Link.relabel r)) =
      ⟨(e.spineBelow above).base.relabel r,
        (e.spineBelow above).links.map (Link.relabel r)⟩ := by
    induction e generalizing above with
    | num | print | unknown => rfl
    | binary left operator right ihLeft _ => exact ihLeft (⟨operator, right⟩ :: above)
  exact hbelow []

end Expr

/-! ### Evaluation -/

/-- The trace without the place that its error names. -/
def Trace.unplaced {α : Type} (t : Trace α) : Trace α :=
  ⟨t.printed, t.outcome.mapError (·.map fun e => ⟨e.fault, none⟩)⟩

/-- The fault of a trace does not depend on its place. -/
theorem Trace.fault_unplaced {α : Type} (t : Trace α) :
    t.unplaced.outcome.mapError (·.map (·.fault)) = t.outcome.mapError (·.map (·.fault)) := by
  obtain ⟨printed, outcome⟩ := t
  rcases outcome with (e | d) | a <;> rfl

/-- A sequence without places is the sequence of its parts without places. -/
theorem Trace.unplaced_bind {α β : Type} (t : Trace α) (f : α → Trace β) :
    (t.bind f).unplaced = t.unplaced.bind fun a => (f a).unplaced := by
  obtain ⟨printed, outcome⟩ := t
  cases outcome <;> rfl

/-- Without its place an operator does what its operation does. -/
theorem Operator.unplaced_apply {o o' : Operator} (h : o'.op = o.op) (a b : Int) :
    (o'.apply a b).unplaced = (o.apply a b).unplaced := by
  rw [Operator.apply, Operator.apply, h]
  cases o.op.apply a b <;> rfl

namespace Expr

variable {r : Relabeling}

/-- A step of evaluation along a left spine, without places. -/
theorem unplaced_foldl (walk : Expr → Trace Int) (links : List Link) (start : Trace Int) :
    (links.foldl (fun value link => value.bind fun a => (walk link.right).bind fun b =>
        link.operator.apply a b) start).unplaced =
      links.foldl (fun value link => value.bind fun a => (walk link.right).unplaced.bind fun b =>
        (link.operator.apply a b).unplaced) start.unplaced := by
  refine (List.foldl_hom Trace.unplaced fun value link => ?_).symm
  rw [Trace.unplaced_bind]
  congr 1
  funext a
  rw [Trace.unplaced_bind]

/-- Evaluation depends on the values and the operations, but for the place that an error names. -/
theorem evalWithin_relabel (hr : r.KeepsMeaning) (levels : Nat) (e : Expr) :
    ((e.relabel r).evalWithin levels).unplaced = (e.evalWithin levels).unplaced := by
  induction levels generalizing e with
  | zero => rfl
  | succ levels ih =>
    cases e with
    | num literal => simp only [relabel, evalWithin, hr.value]
    | unknown name => rfl
    | print position body =>
      rw [relabel, evalWithin, evalWithin, Trace.unplaced_bind, Trace.unplaced_bind, ih]
    | binary left operator right =>
      have hspine := leftSpine_relabel r (.binary left operator right)
      rw [relabel] at hspine ⊢
      rw [evalWithin, evalWithin, hspine, unplaced_foldl, unplaced_foldl, List.foldl_map, ih]
      simp only [Link.relabel, ih, Operator.unplaced_apply (hr.op _)]

/-! ### Compilation -/

/-- Compilation depends on the values and the operations. -/
theorem emitWithin_relabel (hr : r.KeepsMeaning) (levels : Nat) (e : Expr) :
    (e.relabel r).emitWithin levels = e.emitWithin levels := by
  induction levels generalizing e with
  | zero => rfl
  | succ levels ih =>
    cases e with
    | num literal => simp only [relabel, emitWithin, hr.value]
    | unknown name => rfl
    | print position body => rw [relabel, emitWithin, emitWithin, ih]
    | binary left operator right =>
      have hspine := leftSpine_relabel r (.binary left operator right)
      rw [relabel] at hspine ⊢
      rw [emitWithin, emitWithin, hspine]
      simp only [List.foldlM_map, Link.relabel, ih, hr.op]

/-! ### Drawing -/

/-- Drawing depends on the values and on how the operators are shown. -/
theorem chartWithin_relabel (hr : r.KeepsNames) (levels : Nat) (e : Expr) :
    (e.relabel r).chartWithin levels = e.chartWithin levels := by
  induction levels generalizing e with
  | zero => rfl
  | succ levels ih =>
    cases e with
    | num literal => simp only [relabel, chartWithin, hr.value]
    | unknown name => rfl
    | print position body => rw [relabel, chartWithin, chartWithin, ih]
    | binary left operator right =>
      have hspine := leftSpine_relabel r (.binary left operator right)
      rw [relabel] at hspine ⊢
      rw [chartWithin, chartWithin, hspine]
      simp only [List.foldlM_map, Link.relabel, ih, hr.shown]

/-! ### Outlines -/

/-- Trees with the same outline are evaluated alike. -/
theorem eval_eq_of_outline_eq [Platform] {e e' : Expr} (h : e.outline = e'.outline) :
    e.eval.unplaced = e'.eval.unplaced := by
  have houtline (e : Expr) : e.outline.eval.unplaced = e.eval.unplaced := by
    rw [outline_eq_relabel]
    exact evalWithin_relabel Relabeling.outline_keepsMeaning walkLimit e
  rw [← houtline e, h, houtline]

end Expr

end LineCalc
