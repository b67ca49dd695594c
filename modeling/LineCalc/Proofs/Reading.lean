import LineCalc.Proofs.Outline
import LineCalc.Proofs.Parsing

/-!
# Texts that stand for trees

Characters stand for a tree if they are the lexemes of tokens that make one with the same outline.
What stands for a tree still does so after other characters and before them, if these start no
number. So the text of a whole can be put together from the texts of its parts.

* `Reads`: the characters stand for the tree.
* `Reads.group`, `Reads.link`: texts in parentheses, and texts joined by an operator.
* `parse_of_reads`, `parse_of_reads_or_tooDeep`: a text that stands for a tree is parsed to it,
  unless it is nested too deeply.
* `isLine_of_parse`: the trees of texts are operations on words, possibly printed.
-/

namespace LineCalc

open LineCalc.Grammar LineCalc.Parser

/-! ### Trees of a line -/

namespace Expr

/-- Trees of operations on words. -/
def isFormula : Expr → Bool
  | .num literal => decide (Word.InRange literal.value)
  | .binary left _ right => left.isFormula && right.isFormula
  | .print _ _ | .unknown _ => false

/-- Trees of operations on words, possibly printed as a whole. -/
def isLine : Expr → Bool
  | .print _ body => body.isFormula
  | e => e.isFormula

/-- Trees that are printed as a whole. -/
def isPrint : Expr → Bool
  | .print _ _ => true
  | _ => false

theorem isLine_of_isFormula {e : Expr} (h : e.isFormula = true) : e.isLine = true := by
  cases e with
  | num | binary => exact h
  | print | unknown => cases h

end Expr

namespace Grammar

/-- Symbols other than a line that go on with operations on words, if with anything. -/
def Symbol.isFormula : Symbol → Bool
  | .factor | .chain _ => true
  | .links _ left => left.isFormula
  | .line => false

theorem Symbol.isFormula_operand (additive : Bool) : (operand additive).isFormula = true := by
  cases additive <;> rfl

/-- Tokens without a number that is too large for a minus before it make operations on words. -/
theorem Derives.isFormula {symbol : Symbol} {tokens : List Token} {tree : Expr}
    (h : Derives symbol tokens tree) (hsymbol : symbol.isFormula = true)
    (hbound : ∀ value : Nat, .integer value ∈ lexemes tokens → (value : Int) ≤ Word.maxValue + 1) :
    tree.isFormula = true := by
  induction h with
  | @number value hvalue position =>
    have hrange : Word.InRange value := ⟨by simp only [Word.minValue]; omega, hvalue⟩
    exact decide_eq_true hrange
  | negated value sign position =>
    -- The bound is that of a number after a minus, so its negation is a word.
    have hvalue := hbound value (by simp)
    have hrange : Word.InRange (-value) := by
      simp only [Word.InRange, Word.minValue, Word.maxValue] at *
      omega
    exact decide_eq_true hrange
  | group hbody opening closing ih => exact ih rfl fun value hmem => hbound value (by simp [hmem])
  | @chain additive tokens more first tree hfirst hrest ihFirst ihRest =>
    have hfirstFormula : first.isFormula = true :=
      ihFirst (Symbol.isFormula_operand additive) fun value hmem => hbound value (by simp [hmem])
    exact ihRest hfirstFormula fun value hmem => hbound value (by simp [hmem])
  | done additive left => exact hsymbol
  | @link additive op tokens more left right tree position hop hright hrest ihRight ihRest =>
    have hleftFormula : left.isFormula = true := hsymbol
    have hrightFormula : right.isFormula = true :=
      ihRight (Symbol.isFormula_operand additive) fun value hmem => hbound value (by simp [hmem])
    refine ihRest ?_ fun value hmem => hbound value (by simp [hmem])
    simp [Symbol.isFormula, Expr.isFormula, hleftFormula, hrightFormula]
  | bare | print => cases hsymbol

/-- An operand may be joined to a chain at its end. -/
theorem Derives.links_snoc {additive : Bool} {op : BinaryOp} {tokens more : List Token}
    {first left right : Expr} (h : Derives (.links additive first) more left)
    (hop : op.isAdditive = additive) (hright : Derives (.operand additive) tokens right)
    (position : Position) :
    Derives (.links additive first) (more ++ ⟨.op op, position⟩ :: tokens)
      (.binary left ⟨op, .text op.symbol, some position⟩ right) := by
  -- The links are kept as they are; the new one goes where the chain is done.
  generalize hsymbol : Symbol.links additive first = symbol at h
  induction h generalizing first with
  | done additive' left =>
    cases hsymbol
    have hlast : Derives (.links additive left) (⟨.op op, position⟩ :: (tokens ++ []))
        (.binary left ⟨op, .text op.symbol, some position⟩ right) := .link hop hright (.done _ _)
    rwa [List.append_nil] at hlast
  | link hop' hright' hrest ihRight ihRest =>
    cases hsymbol
    rw [List.cons_append, List.append_assoc]
    exact .link hop' hright' (ihRest rfl)
  | number | negated | group | chain | bare | print => cases hsymbol

/-- A chain goes on with an operator and an operand. -/
theorem Derives.chain_snoc {additive : Bool} {op : BinaryOp} {tokens more : List Token}
    {left right : Expr} (h : Derives (.chain additive) tokens left)
    (hop : op.isAdditive = additive) (hright : Derives (.operand additive) more right)
    (position : Position) :
    Derives (.chain additive) (tokens ++ ⟨.op op, position⟩ :: more)
      (.binary left ⟨op, .text op.symbol, some position⟩ right) := by
  cases h with
  | chain hfirst hrest =>
    rw [List.append_assoc]
    exact .chain hfirst (hrest.links_snoc hop hright position)

end Grammar

/-! ### Texts -/

/-- The characters stand for the tree, as the given symbol and after any token. -/
def Reads (symbol : Symbol) (chars : List Char) (e : Expr) : Prop :=
  ∃ tokens tree, Derives symbol tokens tree ∧ tree.outline = e.outline ∧
    ∀ last, Lexes last chars (lexemes tokens)

namespace Reads

variable {additive : Bool} {chars more : List Char} {e left right : Expr}

/-- An operand is a chain on its own. -/
theorem single (h : Reads (.operand additive) chars e) : Reads (.chain additive) chars e := by
  obtain ⟨tokens, tree, hderives, houtline, hlexes⟩ := h
  exact ⟨tokens, tree, hderives.single, houtline, hlexes⟩

/-- An expression in parentheses is a factor. -/
theorem group (h : Reads .expr chars e) : Reads .factor ('(' :: (chars ++ [')'])) e := by
  obtain ⟨tokens, tree, hderives, houtline, hlexes⟩ := h
  refine ⟨_, tree, hderives.group ⟨1, 1⟩ ⟨1, 1⟩, houtline, ?_⟩
  have hclosing : ∀ last, Lexes last [')'] [.rparen] :=
    Lexes.single rfl .nil
  rw [lexemes_cons, lexemes_append]
  exact Lexes.single rfl fun last => (hlexes last).append hclosing (by simp)

/-- A chain goes on with an operator and an operand. -/
theorem link {operator : Operator} (hleft : Reads (.chain additive) chars left)
    (hop : operator.op.isAdditive = additive) (hright : Reads (.operand additive) more right) :
    Reads (.chain additive) (chars ++ operator.op.char :: more) (.binary left operator right) := by
  obtain ⟨tokens, tree, hderives, houtline, hlexes⟩ := hleft
  obtain ⟨others, tree', hderives', houtline', hlexes'⟩ := hright
  refine ⟨_, _, hderives.chain_snoc hop hderives' ⟨1, 1⟩, ?_, fun last => ?_⟩
  · simp only [Expr.outline, houtline, houtline']
  · have hchar : Lexeme.ofChar? operator.op.char = some (.op operator.op) := by
      cases operator.op <;> rfl
    rw [lexemes_append, lexemes_cons]
    refine (hlexes last).append (Lexes.single hchar hlexes') ?_
    simpa using (Lexeme.ofChar?_cases hchar).1

/-- An expression is a line. -/
theorem bare (h : Reads .expr chars e) : Reads .line chars e := by
  obtain ⟨tokens, tree, hderives, houtline, hlexes⟩ := h
  exact ⟨tokens, tree, .bare hderives, houtline, hlexes⟩

/-- An expression after the keyword and a space is a line. -/
theorem print (h : Reads .expr chars e) (position : Option Position) :
    Reads .line (printWord.toList ++ ' ' :: chars) (.print position e) := by
  obtain ⟨tokens, tree, hderives, houtline, hlexes⟩ := h
  refine ⟨_, _, .print hderives ⟨1, 1⟩, congrArg (Expr.print none) houtline, fun last => ?_⟩
  have hspace : Lexes (some .print) ([' '] ++ chars) (lexemes tokens) :=
    (hlexes _).gap_append (by simp [Text.isGap])
  exact Lexes.unspaced .print trivial trivial hspace

/-- The decimal of a natural number stands for it wherever it is not too large. -/
theorem lexes_toDigits {value : Nat} {last : Option Kind}
    (h : (Lexeme.integer value).FitsAfter last) :
    Lexes last (Nat.toDigits 10 value) [.integer value] := by
  -- A number that may stand anywhere has far fewer digits than can be converted.
  have hvalue : value < 10 ^ 10 := by
    simp only [Lexeme.FitsAfter, Word.maxValue] at h
    split at h <;> omega
  have hlength : (Nat.toDigits 10 value).length ≤ 10 := by
    rwa [Nat.length_toDigits_le_iff (by decide) (by decide)]
  have hspelled : (Lexeme.integer (Nat.ofDigitChars 10 (Nat.toDigits 10 value) 0)).Spelled
      (Nat.toDigits 10 value) :=
    .number Nat.toDigits_ne_nil
      (fun c hc => Nat.isDigit_of_mem_toDigits (by decide) (by decide) hc)
      (Nat.le_trans hlength (by decide))
  rw [Nat.ofDigitChars_toDigits (by decide) (by decide)] at hspelled
  have hend : (Lexeme.integer value).EndsBefore [] := by simp [Lexeme.EndsBefore]
  simpa using Lexes.unspaced hspelled h hend (.nil _)

/-- The decimal of a word stands for it. -/
theorem number {literal : Literal} (h : Word.InRange literal.value) :
    Reads .factor (toString literal.value).toList (.num literal) := by
  obtain ⟨hlow, hhigh⟩ := h
  rw [Int.toString_eq_repr, Int.repr_eq_if]
  -- The sign is a lexeme of its own, and after it the number may be one larger.
  by_cases hsign : 0 ≤ literal.value
  · obtain ⟨value, hvalue⟩ := Int.eq_ofNat_of_zero_le hsign
    rw [if_pos hsign, Nat.toList_repr, hvalue, Int.toNat_natCast]
    rw [hvalue] at hhigh
    have hfits : (Lexeme.integer value).FitsAfter none := hhigh
    refine ⟨_, _, .number hhigh ⟨1, 1⟩, by simp [Expr.outline, hvalue], fun last => ?_⟩
    exact lexes_toDigits (hfits.of_none last)
  · obtain ⟨value, hvalue⟩ := Int.eq_ofNat_of_zero_le (by omega : 0 ≤ -literal.value)
    have hfits : (Lexeme.integer value).FitsAfter (some (.op .sub)) := by
      simp only [Lexeme.FitsAfter, if_true, Word.minValue, Word.maxValue] at *
      omega
    rw [if_neg hsign, String.toList_append, Nat.toList_repr, hvalue, Int.toNat_natCast]
    refine ⟨_, _, .negated value ⟨1, 1⟩ ⟨1, 1⟩, ?_, fun last => ?_⟩
    · have hliteral : literal.value = -value := by omega
      simp [Expr.outline, hliteral]
    · have hminus : Lexeme.ofChar? '-' = some (.op .sub) := rfl
      exact Lexes.unspaced (.single hminus) trivial trivial (lexes_toDigits hfits)

end Reads

/-- A text that stands for a tree is read to the end and makes a tree with the same outline. -/
theorem exists_program_of_reads {text : String} {e : Expr} (h : Reads .line text.toList e) :
    ∃ tokens tree, (Feed.ofText text).tokens = (tokens, none) ∧ Program tokens tree ∧
      tree.outline = e.outline := by
  obtain ⟨tokens, tree, hderives, houtline, hlexes⟩ := h
  obtain ⟨found, hfound, hread⟩ :=
    Cursor.exists_tokens_of_lexes (hlexes none) (c := Cursor.ofText text) rfl rfl
  -- The tokens that are read have places of their own, so the tree is made anew from them.
  obtain ⟨front, _, rfl, hfront, hback⟩ := lexemes_eq_append hread
  obtain ⟨position, _, rfl, hnil⟩ := lexemes_eq_cons hback
  obtain rfl := lexemes_eq_nil hnil
  obtain ⟨tree', hderives', houtline'⟩ := hderives.relocate rfl hfront
  exact ⟨_, tree', hfound, .intro hderives' position, houtline'.trans houtline⟩

/-- A text that stands for a tree and keeps to the limit of parentheses is parsed to it. -/
theorem parse_of_reads {levels : Nat} {text : String} {e : Expr} (h : Reads .line text.toList e)
    (hnest : NestsWithin levels (Feed.ofText text).tokens.1) :
    ∃ tree, (parse levels text).result = .ok tree ∧ tree.outline = e.outline := by
  obtain ⟨tokens, tree, htokens, hprogram, houtline⟩ := exists_program_of_reads h
  rw [htokens] at hnest
  exact ⟨tree, Feed.parse_of_program (Feed.ofText_regular text) (congrArg Prod.fst htokens) hnest
    hprogram, houtline⟩

/-- A text that stands for a tree is parsed to it, unless it is nested too deeply. -/
theorem parse_of_reads_or_tooDeep {levels : Nat} {text : String} {e : Expr}
    (h : Reads .line text.toList e) :
    (∃ tree, (parse levels text).result = .ok tree ∧ tree.outline = e.outline) ∨
      (parse levels text).result = .error (.error .tooDeep) := by
  obtain ⟨tokens, tree, htokens, hprogram, houtline⟩ := exists_program_of_reads h
  rcases Feed.parse_of_program_or_tooDeep (Feed.ofText_regular text) htokens hprogram with h | h
  · exact .inl ⟨tree, h, houtline⟩
  · exact .inr h

/-- What a text that is parsed is made of. -/
theorem exists_lexes_of_parse {levels : Nat} {text : String} {tree : Expr}
    (h : (parse levels text).result = .ok tree) :
    ∃ tokens, Derives .line tokens tree ∧ Lexes none text.toList (lexemes tokens) := by
  obtain ⟨_, htokens, @⟨tokens, _, hline, position⟩⟩ :=
    Feed.program_of_parse (Feed.ofText_regular text) h
  obtain ⟨read, hread, hlexes⟩ := Cursor.lexes_of_tokens htokens
  rw [lexemes_append] at hread
  obtain ⟨rfl, -⟩ := List.append_inj' hread rfl
  exact ⟨tokens, hline, hlexes⟩

/-- A text that is parsed to a tree without a print stands for it as an expression. -/
theorem reads_of_parse {levels : Nat} {text : String} {tree : Expr}
    (h : (parse levels text).result = .ok tree) (hprint : tree.isPrint = false) :
    Reads .expr text.toList tree := by
  obtain ⟨tokens, hline, hlexes⟩ := exists_lexes_of_parse h
  cases hline with
  | bare hexpr => exact ⟨tokens, tree, hexpr, rfl, hlexes.of_none⟩
  | print => cases hprint

/-- The trees of texts are operations on words, possibly printed. -/
theorem isLine_of_parse {levels : Nat} {text : String} {tree : Expr}
    (h : (parse levels text).result = .ok tree) : tree.isLine = true := by
  obtain ⟨tokens, hline, hlexes⟩ := exists_lexes_of_parse h
  cases hline with
  | bare hexpr => exact Expr.isLine_of_isFormula (hexpr.isFormula rfl hlexes.integer_le)
  | print hexpr position =>
    refine hexpr.isFormula rfl fun value hmem => ?_
    exact hlexes.integer_le value (List.mem_cons_of_mem _ hmem)

end LineCalc
