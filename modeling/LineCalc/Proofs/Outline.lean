import LineCalc.Proofs.Grammar
import LineCalc.Proofs.Lexing

/-!
# Trees without their places

What a tree says is its shape, its operations and its numbers. Where these stand in a text, and how
they are shown, is left out of its outline. Tokens that differ in their places only make trees with
the same outline.

* `Expr.outline`: the tree with its shape, its operations and its numbers only.
* `Grammar.Derives.relocate`: the same lexemes at other places make a tree with the same outline.
-/

namespace LineCalc

namespace Expr

/-- The tree with its shape, its operations and its numbers only. -/
def outline : Expr → Expr
  | .num literal => .num ⟨literal.value, literal.value, none⟩
  | .binary left operator right =>
    .binary left.outline ⟨operator.op, .absent, none⟩ right.outline
  | .print _ body => .print none body.outline
  | .unknown name => .unknown name

end Expr

namespace Grammar

/-- The symbol with the outline of the tree that it goes on with. -/
def Symbol.outline : Symbol → Symbol
  | .links additive left => .links additive left.outline
  | symbol => symbol

/-- Only links after a tree with the same outline have the outline of links. -/
theorem Symbol.outline_eq_links {additive : Bool} {left : Expr} {other : Symbol} :
    other.outline = (Symbol.links additive left).outline ↔
      ∃ left', other = .links additive left' ∧ left'.outline = left.outline := by
  constructor
  · intro h
    cases other with
    | links additive' left' =>
      simp only [outline, links.injEq] at h
      exact ⟨left', by rw [h.1], h.2⟩
    | factor | chain | line => cases h
  · rintro ⟨left', rfl, h⟩
    rw [outline, outline, h]

/-- The same lexemes at other places make a tree with the same outline. -/
theorem Derives.relocate {symbol other : Symbol} {tokens moved : List Token} {tree : Expr}
    (h : Derives symbol tokens tree) (hsymbol : other.outline = symbol.outline)
    (htokens : lexemes moved = lexemes tokens) :
    ∃ tree', Derives other moved tree' ∧ tree'.outline = tree.outline := by
  induction h generalizing other moved with
  | number hvalue position =>
    cases other <;> cases hsymbol
    obtain ⟨place, _, rfl, hnil⟩ := lexemes_eq_cons htokens
    obtain rfl := lexemes_eq_nil hnil
    exact ⟨_, .number hvalue place, rfl⟩
  | negated value sign position =>
    cases other <;> cases hsymbol
    obtain ⟨signPlace, _, rfl, hrest⟩ := lexemes_eq_cons htokens
    obtain ⟨place, _, rfl, hnil⟩ := lexemes_eq_cons hrest
    obtain rfl := lexemes_eq_nil hnil
    exact ⟨_, .negated value signPlace place, rfl⟩
  | @group tokens body hbody opening closing ih =>
    cases other <;> cases hsymbol
    rw [lexemes_cons, lexemes_append] at htokens
    obtain ⟨openPlace, _, rfl, hrest⟩ := lexemes_eq_cons htokens
    obtain ⟨inside, _, rfl, hinside, hlast⟩ := lexemes_eq_append hrest
    obtain ⟨closePlace, _, rfl, hnil⟩ := lexemes_eq_cons hlast
    obtain rfl := lexemes_eq_nil hnil
    obtain ⟨body', hbody', houtline⟩ := ih rfl hinside
    exact ⟨body', .group hbody' openPlace closePlace, houtline⟩
  | @chain additive tokens more first tree hfirst hrest ihFirst ihRest =>
    cases other <;> cases hsymbol
    rw [lexemes_append] at htokens
    obtain ⟨front, back, rfl, hfront, hback⟩ := lexemes_eq_append htokens
    obtain ⟨first', hfirst', houtline⟩ := ihFirst rfl hfront
    -- The links go on with the first operand, at its other place.
    obtain ⟨tree', htree', houtline'⟩ :=
      ihRest (Symbol.outline_eq_links.2 ⟨first', rfl, houtline⟩) hback
    exact ⟨tree', .chain hfirst' htree', houtline'⟩
  | done additive left =>
    obtain ⟨left', rfl, houtline⟩ := Symbol.outline_eq_links.1 hsymbol
    obtain rfl := lexemes_eq_nil htokens
    exact ⟨left', .done _ _, houtline⟩
  | @link additive op tokens more left right tree position hop hright hrest ihRight ihRest =>
    obtain ⟨left', rfl, houtline⟩ := Symbol.outline_eq_links.1 hsymbol
    rw [lexemes_cons, lexemes_append] at htokens
    obtain ⟨place, _, rfl, hback⟩ := lexemes_eq_cons htokens
    obtain ⟨front, back, rfl, hfront, hback⟩ := lexemes_eq_append hback
    obtain ⟨right', hright', houtline'⟩ := ihRight rfl hfront
    have hjoined : (Expr.binary left' ⟨op, .text op.symbol, some place⟩ right').outline =
        (Expr.binary left ⟨op, .text op.symbol, some position⟩ right).outline := by
      simp only [Expr.outline, houtline, houtline']
    obtain ⟨tree', htree', houtline''⟩ :=
      ihRest (Symbol.outline_eq_links.2 ⟨_, rfl, hjoined⟩) hback
    exact ⟨tree', .link hop hright' htree', houtline''⟩
  | bare hexpr ih =>
    cases other <;> cases hsymbol
    obtain ⟨tree', hexpr', houtline⟩ := ih rfl htokens
    exact ⟨tree', .bare hexpr', houtline⟩
  | print hexpr position ih =>
    cases other <;> cases hsymbol
    obtain ⟨place, _, rfl, hrest⟩ := lexemes_eq_cons htokens
    obtain ⟨tree', hexpr', houtline⟩ := ih rfl hrest
    exact ⟨_, .print hexpr' place, congrArg (Expr.print none) houtline⟩

end Grammar

end LineCalc
