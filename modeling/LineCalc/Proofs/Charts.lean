import LineCalc.Proofs.Relabeling
import LineCalc.Proofs.Running

/-!
# Reading a chart back

A chart names a number and an operation in the same way, by a text, and the name of a negative
number starts like that of a difference. It can still be read back: numbers are at the leaves,
operations have two nodes below them and prints have one. So trees with the same chart say the same.

* `Numeral.denoted_toString`: a number is read back from its decimal form.
* `ChartNode.tree?`: the tree that a chart stands for.
* `Expr.tree?_of_chartTree`: the chart of a tree is read back to the outline of the tree.
* `Expr.outline_eq_of_chart_eq`: trees with the same chart have the same outline, and so they are
  evaluated alike.
-/

namespace LineCalc

/-- The operation of a given symbol. -/
def BinaryOp.ofSymbol? (symbol : String) : Option BinaryOp := all.find? (·.symbol == symbol)

/-- No two operations share their symbol. -/
theorem BinaryOp.ofSymbol?_symbol (op : BinaryOp) : ofSymbol? op.symbol = some op := by
  cases op <;> decide

namespace Numeral

/-- The number that a decimal form, with a sign or without one, denotes. -/
def denoted (text : String) : Int :=
  let (negative, digits) := splitSign text.toList
  let magnitude : Int := Nat.ofDigitChars 10 digits 0
  if negative then -magnitude else magnitude

/-- A run of digits has no sign. -/
theorem splitSign_of_digits {digits : List Char} (h : ∀ c ∈ digits, c.isDigit = true) :
    splitSign digits = (false, digits) := by
  unfold splitSign
  split
  · exact absurd (h '-' List.mem_cons_self) (by decide)
  · exact absurd (h '+' List.mem_cons_self) (by decide)
  · rfl

/-- A number is read back from its decimal form. -/
theorem denoted_toString (value : Int) : denoted (toString value) = value := by
  have hdigits (n : Nat) : Nat.ofDigitChars 10 (Nat.toDigits 10 n) 0 = n :=
    Nat.ofDigitChars_toDigits (by decide) (by decide)
  have hunsigned (n : Nat) : splitSign (Nat.toDigits 10 n) = (false, Nat.toDigits 10 n) :=
    splitSign_of_digits fun c hc => Nat.isDigit_of_mem_toDigits (by decide) (by decide) hc
  -- A sign is written for the negative numbers only, and their magnitude after it.
  rw [denoted, Int.toString_eq_repr, Int.repr_eq_if]
  by_cases hsign : 0 ≤ value
  · rw [if_pos hsign, Nat.toList_repr, hunsigned]
    show (Nat.ofDigitChars 10 (Nat.toDigits 10 value.toNat) 0 : Int) = value
    rw [hdigits, Int.toNat_of_nonneg hsign]
  · rw [if_neg hsign, String.toList_append, Nat.toList_repr]
    show -(Nat.ofDigitChars 10 (Nat.toDigits 10 (-value).toNat) 0 : Int) = value
    rw [hdigits]
    omega

end Numeral

/-- The tree that a chart stands for, without what a chart does not show. There is none if the
name of an operation is no symbol or that of a print not the keyword. -/
def ChartNode.tree? : ChartNode → Option Expr
  | .leaf name => some (.num ⟨Numeral.denoted name, Numeral.denoted name, none⟩)
  | .single name child => if name = printWord then child.tree?.map (.print none) else none
  | .pair name left right => do
    let op ← BinaryOp.ofSymbol? name
    let a ← left.tree?
    let b ← right.tree?
    return .binary a ⟨op, .absent, none⟩ b

namespace Expr

/-- The chart of a tree whose operators are shown by their symbols is read back to its outline. -/
theorem tree?_of_chartTree {e : Expr} (hshows : e.showsSymbols = true) {root : ChartNode}
    (h : e.chartTree = .ok root) : root.tree? = some e.outline := by
  induction e generalizing root with
  | unknown name => cases h
  | num literal =>
    obtain ⟨name, hname, hroot⟩ := ok_of_bind_ok h
    cases hroot
    -- A number that has a chart is written in decimal.
    obtain rfl := Numeral.eq_toString_of_write hname
    rw [ChartNode.tree?, Numeral.denoted_toString]
    rfl
  | print position body ih =>
    obtain ⟨child, hchild, hroot⟩ := ok_of_bind_ok h
    cases hroot
    rw [ChartNode.tree?, if_pos rfl, ih hshows hchild]
    rfl
  | binary left operator right ihLeft ihRight =>
    obtain ⟨hsymbol, hleft, hright⟩ := showsSymbols_binary.1 hshows
    obtain ⟨a, ha, hrest⟩ := ok_of_bind_ok h
    rw [hsymbol] at hrest
    obtain ⟨b, hb, hroot⟩ := ok_of_bind_ok (m := right.chartTree) hrest
    cases hroot
    rw [ChartNode.tree?, Payload.plain, BinaryOp.ofSymbol?_symbol, ihLeft hleft ha,
      ihRight hright hb]
    rfl

/-- Trees that are drawn as the same chart are the same in shape, operations and values, if their
operators are shown by their symbols. So they print the same, and end with the same value or the
same fault. -/
theorem outline_eq_of_chart_eq [Platform] {e e' : Expr} (hshows : e.showsSymbols = true)
    (hshows' : e'.showsSymbols = true) {root : ChartNode} (h : e.chart = .ok root)
    (h' : e'.chart = .ok root) :
    e.outline = e'.outline ∧ e.eval.printed = e'.eval.printed ∧
      e.eval.outcome.mapError (·.map (·.fault)) = e'.eval.outcome.mapError (·.map (·.fault)) := by
  have htree := tree?_of_chartTree hshows (chartTree_of_chartWithin h).1
  have htree' := tree?_of_chartTree hshows' (chartTree_of_chartWithin h').1
  have houtline : e.outline = e'.outline := Option.some.inj (htree.symm.trans htree')
  have heval := eval_eq_of_outline_eq houtline
  refine ⟨houtline, ?_, ?_⟩
  · show e.eval.unplaced.printed = e'.eval.unplaced.printed
    rw [heval]
  · rw [← Trace.fault_unplaced, heval, Trace.fault_unplaced]

open scoped Platform in
/-- A difference with a negative number and a print, once with all its places and once without any:
both are drawn as the same chart and print the same. -/
theorem outline_eq_of_chart_eq_difference :
    let e : Expr := .binary (.num ⟨1, -1, some ⟨1, 2⟩⟩) ⟨.sub, .text "-", some ⟨1, 3⟩⟩
      (.print (some ⟨1, 5⟩) (.num ⟨2, 2, some ⟨1, 11⟩⟩))
    let e' : Expr := .binary (.num ⟨-1, -1, none⟩) ⟨.sub, .text "-", none⟩
      (.print none (.num ⟨2, 2, none⟩))
    let root : ChartNode := .pair "-" (.leaf "-1") (.single "print" (.leaf "2"))
    e.chart = .ok root ∧ e'.chart = .ok root ∧ e.outline = e'.outline ∧ e'.eval.printed = [2] := by
  intro e e' root
  have hdepth : e.depth ≤ walkLimit := by decide
  have hdepth' : e'.depth ≤ walkLimit := by decide
  have hchart : e.chart = .ok root := (chart_eq_chartTree hdepth).trans rfl
  have hchart' : e'.chart = .ok root := (chart_eq_chartTree hdepth').trans rfl
  have hprinted : e.eval.printed = [2] := by
    rw [eval_eq_evalTree hdepth]
    rfl
  obtain ⟨houtline, heval, -⟩ := @outline_eq_of_chart_eq _ e e' rfl rfl root hchart hchart'
  exact ⟨hchart, hchart', houtline, heval.symm.trans hprinted⟩

end Expr

end LineCalc
