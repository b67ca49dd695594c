import LineCalc.Proofs.Grammar
import LineCalc.Proofs.Parser.Eating

/-!
# The parsers of the symbols

Each symbol of the grammar has a parser, and each of these decides by its current token what to do
next. The parser of a whole line is that of an expression, possibly after `print`, with the end of
the text behind it.

* `Grammar.Symbol.parse`: the parser of a symbol.
* `Parser.programWithin`: the parser of a whole line.
-/

namespace LineCalc

namespace Parser

/-! ### Symbols -/

/-- The parser of what the operators of a rank join. -/
def operand (levels : Nat) : Bool → Parse Expr
  | true => term (exprWithin levels)
  | false => factor (exprWithin levels)

/-- The parser of an expression, possibly after `print`. -/
def line (levels : Nat) : Parse Expr := do
  let first := (← get).current
  if first.kind = .print then
    eat .print
    pure (.print (some first.position) (← exprWithin (levels + 1)))
  else exprWithin (levels + 1)

/-- The parser of a whole line, with the given number of levels for parentheses. -/
def programWithin (levels : Nat) : Parse Expr := do
  let tree ← line levels
  let found := (← get).current
  if found.kind = .eof then
    pure tree
  else
    throw (.error (.trailingInput found))

/-- A line is parsed as a symbol of its own, up to the end of the text. -/
theorem program_eq_programWithin (levels : Nat) : program levels = programWithin levels := by
  funext p
  rw [programWithin, line, bind_assoc, program, get_bind, get_bind]
  -- The end of the text is looked for in both branches, which `line` has in common.
  by_cases hprint : p.current.kind = .print
  · simp only [hprint, if_true, bind_assoc, pure_bind]
    rfl
  · simp only [hprint, if_false]
    rfl

end Parser

/-- The parser of a symbol, with the levels that parentheses may take. A stretch after a tree in a
chain has at most the given number of links. -/
def Grammar.Symbol.parse (levels count : Nat) : Grammar.Symbol → Parse Expr
  | .factor => Parser.factor (Parser.exprWithin levels)
  | .chain true => Parser.sum (Parser.exprWithin levels)
  | .chain false => Parser.term (Parser.exprWithin levels)
  | .links additive left =>
    Parser.chain (Parser.operand levels additive) (·.isAdditive == additive) count left
  | .line => Parser.line levels

namespace Parser

open Grammar

theorem parse_operand (levels count : Nat) (additive : Bool) :
    (Symbol.operand additive).parse levels count = operand levels additive := by
  cases additive <;> rfl

/-- A chain is an operand and its links. -/
theorem parse_chain (levels count : Nat) (additive : Bool) :
    (Symbol.chain additive).parse levels count =
      (do
        let first ← operand levels additive
        chain (operand levels additive) (·.isAdditive == additive) (← get).size first) := by
  cases additive with
  | false =>
    -- A term tests for the rank by negation, a sum directly.
    have hjoins : (fun o : BinaryOp => !o.isAdditive) = (·.isAdditive == false) := by simp
    rw [Symbol.parse, term, hjoins]
    rfl
  | true =>
    have hjoins : (fun o : BinaryOp => o.isAdditive) = (·.isAdditive == true) := by simp
    rw [Symbol.parse, sum, hjoins]
    rfl

/-! ### What the current token decides -/

section Current

variable {p : Parser} {position : Position} {inner : Parse Expr}

theorem factor_number {value : Nat} (h : p.current = ⟨.integer value, position⟩)
    (hvalue : (value : Int) ≤ Word.maxValue) :
    factor inner p =
      (do
        eat .integer
        pure (.num ⟨value, value, some position⟩) : Parse Expr) p := by
  rw [factor, get_bind, h]
  exact congrFun (if_neg (Int.not_lt.2 hvalue)) p

theorem factor_tooLarge {value : Nat} (h : p.current.lexeme = .integer value)
    (hvalue : Word.maxValue < value) :
    factor inner p = (.error (.error (.numberTooLarge p.current)), p) := by
  rw [factor, get_bind, h]
  exact congrFun (if_pos hvalue) p

theorem factor_minus (h : p.current = ⟨.op .sub, position⟩) :
    factor inner p =
      (do
        eat (.op .sub)
        let number := (← get).current
        eat .integer
        let value := number.lexeme.magnitude
        pure (.num ⟨value, -value, some number.position⟩) : Parse Expr) p := by
  rw [factor, get_bind, h]

theorem factor_group (h : p.current = ⟨.lparen, position⟩) :
    factor inner p =
      (do
        eat .lparen
        let body ← inner
        eat .rparen
        pure body : Parse Expr) p := by
  rw [factor, get_bind, h]

theorem factor_other (hinteger : p.current.kind ≠ .integer) (hminus : p.current.kind ≠ .op .sub)
    (hgroup : p.current.kind ≠ .lparen) :
    factor inner p = (.error (.error (.unexpectedToken p.current .integer)), p) := by
  obtain ⟨⟨lexeme, position⟩, feed, drawn, size⟩ := p
  cases lexeme with
  | integer value => exact absurd rfl hinteger
  | op o =>
    cases o with
    | sub => exact absurd rfl hminus
    | add | mul | div => rfl
  | lparen => exact absurd rfl hgroup
  | rparen | print | eof => rfl

variable {joins : BinaryOp → Bool} {count : Nat} {left : Expr}

theorem chain_link {op : BinaryOp} (h : p.current = ⟨.op op, position⟩) (hop : joins op = true) :
    chain inner joins (count + 1) left p =
      (do
        eat (.op op)
        let right ← inner
        chain inner joins count (.binary left ⟨op, .text op.symbol, some position⟩ right) :
          Parse Expr) p := by
  rw [chain, get_bind, h]
  exact congrFun (if_pos hop) p

/-- A chain ends where no operator of it follows. -/
theorem chain_stop (h : ∀ op, p.current.lexeme = .op op → joins op = false) :
    chain inner joins count left p = (.ok left, p) := by
  cases count with
  | zero => rfl
  | succ count =>
    obtain ⟨⟨lexeme, position⟩, feed, drawn, size⟩ := p
    cases lexeme with
    | op o =>
      have hop : ¬joins o = true := by simpa using h o rfl
      exact congrFun (if_neg hop) _
    | integer | lparen | rparen | print | eof => rfl

theorem line_print {levels : Nat} (h : p.current = ⟨.print, position⟩) :
    line levels p =
      (do
        eat .print
        pure (.print (some position) (← exprWithin (levels + 1))) : Parse Expr) p := by
  rw [line, get_bind, h]
  rfl

theorem line_bare {levels : Nat} (h : p.current.kind ≠ .print) :
    line levels p = exprWithin (levels + 1) p := by
  rw [line, get_bind]
  exact congrFun (if_neg h) p

end Current

end Parser

end LineCalc
