import LineCalc.Parser

/-!
# The grammar of a line

Which tokens make a line, and which tree they stand for, without regard to how they are read. The
operands of a chain are listed from left to right, and each of them is joined to the tree of all
those before it.

* `Grammar.Derives`: stretches of tokens that make a tree.
* `Grammar.Program`: whole lines.
* `Grammar.Viable`: the beginnings of whole lines.
* `Grammar.NestsWithin`: tokens with a bound on the parentheses that are open at one time.
* `Grammar.Rejects`: where the tokens stop to be the beginning of a stretch, and what is then wrong.
-/

namespace LineCalc.Grammar

/-- What a stretch of tokens can be. -/
inductive Symbol
  /-- A number, a negated number, or an expression in parentheses. -/
  | factor
  /-- Operands joined by operators of one rank: an expression if these are additive, else a term. -/
  | chain (additive : Bool)
  /-- The operators and operands that may follow a tree in such a chain. -/
  | links (additive : Bool) (left : Expr)
  /-- An expression, possibly after `print`. -/
  | line

namespace Symbol

/-- A chain of factors. -/
abbrev term : Symbol := .chain false

/-- A chain of terms. -/
abbrev expr : Symbol := .chain true

/-- What the operators of a rank join. -/
def operand : Bool → Symbol
  | true => term
  | false => factor

/-- A token with which a stretch could go on after it was complete. -/
def Extends : Symbol → Token → Prop
  | .factor, _ => False
  | .chain additive, found | .links additive _, found =>
    ∃ op, found.lexeme = .op op ∧ (op.isAdditive = true → additive = true)
  | .line, found => ∃ op, found.lexeme = .op op

end Symbol

/-- The tokens make the tree. -/
inductive Derives : Symbol → List Token → Expr → Prop
  | number {value : Nat} (hvalue : (value : Int) ≤ Word.maxValue) (position : Position) :
    Derives .factor [⟨.integer value, position⟩] (.num ⟨value, value, some position⟩)
  -- After a minus no bound is asked for here: how large such a number can be is settled where it
  -- is read.
  | negated (value : Nat) (sign position : Position) :
    Derives .factor [⟨.op .sub, sign⟩, ⟨.integer value, position⟩]
      (.num ⟨value, -value, some position⟩)
  | group {tokens : List Token} {body : Expr} (hbody : Derives .expr tokens body)
      (opening closing : Position) :
    Derives .factor (⟨.lparen, opening⟩ :: (tokens ++ [⟨.rparen, closing⟩])) body
  | chain {additive : Bool} {tokens more : List Token} {first tree : Expr}
      (hfirst : Derives (.operand additive) tokens first)
      (hrest : Derives (.links additive first) more tree) :
    Derives (.chain additive) (tokens ++ more) tree
  | done (additive : Bool) (left : Expr) : Derives (.links additive left) [] left
  | link {additive : Bool} {op : BinaryOp} {tokens more : List Token} {left right tree : Expr}
      {position : Position} (hop : op.isAdditive = additive)
      (hright : Derives (.operand additive) tokens right)
      (hrest : Derives (.links additive (.binary left ⟨op, .text op.symbol, some position⟩ right))
        more tree) :
    Derives (.links additive left) (⟨.op op, position⟩ :: (tokens ++ more)) tree
  | bare {tokens : List Token} {tree : Expr} (hexpr : Derives .expr tokens tree) :
    Derives .line tokens tree
  | print {tokens : List Token} {tree : Expr} (hexpr : Derives .expr tokens tree)
      (position : Position) :
    Derives .line (⟨.print, position⟩ :: tokens) (.print (some position) tree)

/-- The tokens are a whole line, up to the end of the text, with the given tree. -/
inductive Program : List Token → Expr → Prop
  | intro {tokens : List Token} {tree : Expr} (hline : Derives .line tokens tree)
      (position : Position) :
    Program (tokens ++ [⟨.eof, position⟩]) tree

/-- The tokens are the beginning of a whole line. -/
def Viable (tokens : List Token) : Prop :=
  ∃ continuation tree, Program (tokens ++ continuation) tree

/-- No token of a stretch is the end of the text. -/
theorem Derives.kind_ne_eof {symbol : Symbol} {tokens : List Token} {tree : Expr}
    (h : Derives symbol tokens tree) : ∀ token ∈ tokens, token.kind ≠ .eof := by
  induction h with
  | number hvalue position => simp [Token.kind, Lexeme.kind]
  | negated value sign position => simp [Token.kind, Lexeme.kind]
  | group hbody opening closing ih => simpa [Token.kind, Lexeme.kind, or_imp, forall_and] using ih
  | chain hfirst hrest ihFirst ihRest => exact List.forall_mem_append.2 ⟨ihFirst, ihRest⟩
  | done additive left => simp
  | link hop hright hrest ihRight ihRest =>
    refine List.forall_mem_cons.2 ⟨by simp [Token.kind, Lexeme.kind], ?_⟩
    exact List.forall_mem_append.2 ⟨ihRight, ihRest⟩
  | bare hexpr ih => exact ih
  | print hexpr position ih =>
    exact List.forall_mem_cons.2 ⟨by simp [Token.kind, Lexeme.kind], ih⟩

/-- A chain may be one operand only. -/
theorem Derives.single {additive : Bool} {tokens : List Token} {tree : Expr}
    (h : Derives (.operand additive) tokens tree) : Derives (.chain additive) tokens tree := by
  rw [← List.append_nil tokens]
  exact .chain h (.done _ _)

/-! ### Where chains go on -/

namespace Symbol

variable {additive : Bool} {found : Token}

/-- An operator that joins operands does not belong to the operand before it. -/
theorem not_extends_operand {op : BinaryOp} (hop : op.isAdditive = additive) (position : Position) :
    ¬(operand additive).Extends ⟨.op op, position⟩ := by
  cases additive with
  | false => exact id
  | true => simp [operand, Extends, hop]

/-- What goes on with the last operand goes on with the chain. -/
theorem extends_of_operand (h : (operand additive).Extends found) :
    (Symbol.chain additive).Extends found := by
  cases additive with
  | false => exact h.elim
  | true =>
    obtain ⟨op, hop, -⟩ := h
    exact ⟨op, hop, fun _ => rfl⟩

/-- A line goes on as its expression does. -/
theorem extends_line_iff : Symbol.line.Extends found ↔ Symbol.expr.Extends found := by
  simp [Extends]

/-- What goes on with a chain goes on with its last operand or joins another one to it. -/
theorem extends_chain (h : (Symbol.chain additive).Extends found) :
    (operand additive).Extends found ∨
      ∃ op, found.lexeme = .op op ∧ op.isAdditive = additive := by
  obtain ⟨op, hlexeme, hop⟩ := h
  -- An operator of another rank can only belong to the last operand, and then it binds tighter.
  by_cases hrank : op.isAdditive = additive
  · exact .inr ⟨op, hlexeme, hrank⟩
  · left
    cases additive with
    | false => exact absurd (Bool.eq_false_iff.2 fun h => Bool.noConfusion (hop h)) hrank
    | true => exact ⟨op, hlexeme, fun h => absurd h hrank⟩

end Symbol

/-- A stretch that follows a tree in a chain is empty or starts with an operator of the chain. -/
theorem Derives.links_cases {additive : Bool} {left tree : Expr} {tokens : List Token}
    (h : Derives (.links additive left) tokens tree) :
    tokens = [] ∨ ∃ op position rest, op.isAdditive = additive ∧
      tokens = ⟨.op op, position⟩ :: rest := by
  cases h with
  | done => exact .inl rfl
  | link hop hright hrest => exact .inr ⟨_, _, _, hop, rfl⟩

/-! ### Beginnings -/

/-- The tokens are the beginning of a stretch. -/
def Begins (symbol : Symbol) (tokens : List Token) : Prop :=
  ∃ continuation tree, Derives symbol (tokens ++ continuation) tree

namespace Begins

variable {additive : Bool} {tokens more : List Token} {left first : Expr} {position : Position}

theorem of_derives {symbol : Symbol} {tree : Expr} (h : Derives symbol tokens tree) :
    Begins symbol tokens :=
  ⟨[], tree, by rwa [List.append_nil]⟩

/-- Every factor can start anew. -/
theorem factor_nil : Begins .factor [] := by
  have hzero : ((0 : Nat) : Int) ≤ Word.maxValue := by decide
  exact ⟨_, _, .number hzero ⟨1, 1⟩⟩

theorem minus (sign : Position) : Begins .factor [⟨.op .sub, sign⟩] :=
  ⟨_, _, .negated 0 sign ⟨1, 1⟩⟩

theorem group (h : Begins .expr tokens) (opening : Position) :
    Begins .factor (⟨.lparen, opening⟩ :: tokens) := by
  obtain ⟨continuation, tree, h⟩ := h
  refine ⟨continuation ++ [⟨.rparen, ⟨1, 1⟩⟩], tree, ?_⟩
  rw [List.cons_append, ← List.append_assoc]
  exact .group h opening _

theorem chain_first (h : Begins (.operand additive) tokens) : Begins (.chain additive) tokens := by
  obtain ⟨continuation, tree, h⟩ := h
  exact ⟨continuation, tree, h.single⟩

theorem chain_rest (h : Begins (.links additive first) more)
    (hfirst : Derives (.operand additive) tokens first) :
    Begins (.chain additive) (tokens ++ more) := by
  obtain ⟨continuation, tree, h⟩ := h
  refine ⟨continuation, tree, ?_⟩
  rw [List.append_assoc]
  exact .chain hfirst h

theorem link_operand {op : BinaryOp} (h : Begins (.operand additive) tokens)
    (hop : op.isAdditive = additive) :
    Begins (.links additive left) (⟨.op op, position⟩ :: tokens) := by
  obtain ⟨continuation, tree, h⟩ := h
  refine ⟨continuation, .binary left ⟨op, .text op.symbol, some position⟩ tree, ?_⟩
  rw [List.cons_append, ← List.append_nil (tokens ++ continuation)]
  exact .link hop h (.done _ _)

theorem link_rest {op : BinaryOp} {right : Expr}
    (h : Begins (.links additive (.binary left ⟨op, .text op.symbol, some position⟩ right)) more)
    (hop : op.isAdditive = additive) (hright : Derives (.operand additive) tokens right) :
    Begins (.links additive left) (⟨.op op, position⟩ :: (tokens ++ more)) := by
  obtain ⟨continuation, tree, h⟩ := h
  refine ⟨continuation, tree, ?_⟩
  rw [List.cons_append, List.append_assoc]
  exact .link hop hright h

theorem bare (h : Begins .expr tokens) : Begins .line tokens := by
  obtain ⟨continuation, tree, h⟩ := h
  exact ⟨continuation, tree, .bare h⟩

theorem print (h : Begins .expr tokens) (position : Position) :
    Begins .line (⟨.print, position⟩ :: tokens) := by
  obtain ⟨continuation, tree, h⟩ := h
  exact ⟨continuation, _, .print h position⟩

/-- Every operand can start anew. -/
theorem operand_nil (additive : Bool) : Begins (.operand additive) [] := by
  cases additive with
  | false => exact factor_nil
  | true => exact chain_first factor_nil

theorem expr_nil : Begins .expr [] := chain_first (operand_nil true)

/-- A line that is begun can be ended. -/
theorem viable (h : Begins .line tokens) : Viable tokens := by
  obtain ⟨continuation, tree, h⟩ := h
  refine ⟨continuation ++ [⟨.eof, ⟨1, 1⟩⟩], tree, ?_⟩
  rw [← List.append_assoc]
  exact .intro h _

end Begins

/-! ### Nesting -/

/-- No more than the given number of parentheses are open at one time: before every point, at most
so many more are opened than closed. -/
def NestsWithin (levels : Nat) (tokens : List Token) : Prop :=
  ∀ k, (tokens.take k).countP (·.kind == .lparen) ≤
    (tokens.take k).countP (·.kind == .rparen) + levels

section Nesting

variable {levels : Nat} {tokens : List Token}

@[simp]
theorem nestsWithin_nil : NestsWithin levels [] := by simp [NestsWithin]

/-- Before its first token a list opens nothing, so only the points after that token count. -/
theorem nestsWithin_cons {token : Token} :
    NestsWithin levels (token :: tokens) ↔
      ∀ k, (tokens.take k).countP (·.kind == .lparen) + (if token.kind = .lparen then 1 else 0) ≤
        (tokens.take k).countP (·.kind == .rparen) + (if token.kind = .rparen then 1 else 0) +
          levels := by
  constructor
  · intro h k
    simpa [List.countP_cons] using h (k + 1)
  · rintro h (_ | k)
    · simp
    · simpa [List.countP_cons] using h k

/-- An opening parenthesis takes a level. -/
@[simp]
theorem nestsWithin_lparen {position : Position} :
    NestsWithin levels (⟨.lparen, position⟩ :: tokens) ↔
      ∃ inner, levels = inner + 1 ∧ NestsWithin inner tokens := by
  have hkind : (⟨.lparen, position⟩ : Token).kind = .lparen := rfl
  simp only [nestsWithin_cons, hkind, if_true, reduceCtorEq, if_false]
  constructor
  · intro h
    have hzero : 1 ≤ levels := by simpa using h 0
    refine ⟨levels - 1, by omega, fun k => ?_⟩
    have hk := h k
    omega
  · rintro ⟨inner, rfl, h⟩ k
    have hk := h k
    omega

/-- A closing parenthesis gives a level back. -/
@[simp]
theorem nestsWithin_rparen {position : Position} :
    NestsWithin levels (⟨.rparen, position⟩ :: tokens) ↔ NestsWithin (levels + 1) tokens := by
  have hkind : (⟨.rparen, position⟩ : Token).kind = .rparen := rfl
  simp only [nestsWithin_cons, hkind, if_true, reduceCtorEq, if_false]
  refine forall_congr' fun k => ?_
  omega

/-- Other tokens do not count. -/
theorem nestsWithin_other {token : Token} (hopening : token.kind ≠ .lparen)
    (hclosing : token.kind ≠ .rparen) :
    NestsWithin levels (token :: tokens) ↔ NestsWithin levels tokens := by
  simp only [nestsWithin_cons, if_neg hopening, if_neg hclosing]
  rfl

@[simp]
theorem nestsWithin_integer {value : Nat} {position : Position} :
    NestsWithin levels (⟨.integer value, position⟩ :: tokens) ↔ NestsWithin levels tokens :=
  nestsWithin_other (by simp [Token.kind, Lexeme.kind]) (by simp [Token.kind, Lexeme.kind])

@[simp]
theorem nestsWithin_op {op : BinaryOp} {position : Position} :
    NestsWithin levels (⟨.op op, position⟩ :: tokens) ↔ NestsWithin levels tokens :=
  nestsWithin_other (by simp [Token.kind, Lexeme.kind]) (by simp [Token.kind, Lexeme.kind])

@[simp]
theorem nestsWithin_print {position : Position} :
    NestsWithin levels (⟨.print, position⟩ :: tokens) ↔ NestsWithin levels tokens :=
  nestsWithin_other (by simp [Token.kind, Lexeme.kind]) (by simp [Token.kind, Lexeme.kind])

@[simp]
theorem nestsWithin_eof {position : Position} :
    NestsWithin levels (⟨.eof, position⟩ :: tokens) ↔ NestsWithin levels tokens :=
  nestsWithin_other (by simp [Token.kind, Lexeme.kind]) (by simp [Token.kind, Lexeme.kind])

/-- The bound holds for the beginning of a list. -/
theorem NestsWithin.of_append {more : List Token} (h : NestsWithin levels (tokens ++ more)) :
    NestsWithin levels tokens := by
  intro k
  -- Points behind the end of the list are the same as its end.
  have hk := h (min k tokens.length)
  rwa [List.take_append_of_le_length (Nat.min_le_right _ _), ← List.take_eq_take_min] at hk

/-- A bound may be raised. -/
theorem NestsWithin.mono {more : Nat} (h : NestsWithin levels tokens) (hle : levels ≤ more) :
    NestsWithin more tokens := by
  intro k
  have hk := h k
  omega

/-- No more parentheses are open than there are opening ones. -/
theorem nestsWithin_of_countP_le (h : tokens.countP (·.kind == .lparen) ≤ levels) :
    NestsWithin levels tokens := by
  intro k
  have htake : (tokens.take k).countP (·.kind == .lparen) ≤ tokens.countP (·.kind == .lparen) :=
    (List.take_sublist k tokens).countP_le
  omega

/-- No more parentheses are open than there are tokens. -/
theorem nestsWithin_length (tokens : List Token) : NestsWithin tokens.length tokens :=
  nestsWithin_of_countP_le List.countP_le_length

end Nesting

/-- A stretch closes what it opens, so what follows it may open as much as it may. -/
theorem Derives.nestsWithin_append {symbol : Symbol} {tokens : List Token} {tree : Expr}
    (h : Derives symbol tokens tree) (levels : Nat) (more : List Token) :
    NestsWithin levels (tokens ++ more) ↔ NestsWithin levels tokens ∧ NestsWithin levels more := by
  induction h generalizing levels more with
  | number hvalue position => simp
  | negated value sign position => simp
  | group hbody opening closing ih =>
    -- The level that the opening parenthesis takes is given back before `more`.
    simp only [List.cons_append, List.append_assoc, List.nil_append, nestsWithin_lparen, ih,
      nestsWithin_rparen, nestsWithin_nil, and_true]
    constructor
    · rintro ⟨inner, rfl, hbody, hmore⟩
      exact ⟨⟨inner, rfl, hbody⟩, hmore⟩
    · rintro ⟨⟨inner, rfl, hbody⟩, hmore⟩
      exact ⟨inner, rfl, hbody, hmore⟩
  | chain hfirst hrest ihFirst ihRest => simp only [List.append_assoc, ihFirst, ihRest, and_assoc]
  | done additive left => simp
  | link hop hright hrest ihRight ihRest =>
    simp [ihRight, ihRest, and_assoc]
  | bare hexpr ih => exact ih levels more
  | print hexpr position ih => simp [ih]

/-! ### Rejected tokens -/

/-- The tokens are the beginning of a stretch that cannot go on with the token after them, for the
given reason. -/
inductive Rejects : Symbol → List Token → Token → ParseError → Prop
  | tooLarge {found : Token} {value : Nat} (hlexeme : found.lexeme = .integer value)
      (hvalue : Word.maxValue < value) :
    Rejects .factor [] found (.numberTooLarge found)
  | start {found : Token} (hinteger : found.kind ≠ .integer) (hminus : found.kind ≠ .op .sub)
      (hgroup : found.kind ≠ .lparen) :
    Rejects .factor [] found (.unexpectedToken found .integer)
  | sign {found : Token} (hinteger : found.kind ≠ .integer) (sign : Position) :
    Rejects .factor [⟨.op .sub, sign⟩] found (.unexpectedToken found .integer)
  | group {tokens : List Token} {found : Token} {error : ParseError}
      (hbody : Rejects .expr tokens found error) (opening : Position) :
    Rejects .factor (⟨.lparen, opening⟩ :: tokens) found error
  | unclosed {tokens : List Token} {body : Expr} {found : Token}
      (hbody : Derives .expr tokens body) (hstop : ¬Symbol.expr.Extends found)
      (hclosing : found.kind ≠ .rparen) (opening : Position) :
    Rejects .factor (⟨.lparen, opening⟩ :: tokens) found (.unexpectedToken found .rparen)
  | first {additive : Bool} {tokens : List Token} {found : Token} {error : ParseError}
      (hfirst : Rejects (.operand additive) tokens found error) :
    Rejects (.chain additive) tokens found error
  | rest {additive : Bool} {tokens more : List Token} {first : Expr} {found : Token}
      {error : ParseError} (hfirst : Derives (.operand additive) tokens first)
      (hrest : Rejects (.links additive first) more found error) :
    Rejects (.chain additive) (tokens ++ more) found error
  | linkOperand {additive : Bool} {op : BinaryOp} {tokens : List Token} {left : Expr}
      {found : Token} {error : ParseError} (hop : op.isAdditive = additive)
      (hright : Rejects (.operand additive) tokens found error) (position : Position) :
    Rejects (.links additive left) (⟨.op op, position⟩ :: tokens) found error
  | linkRest {additive : Bool} {op : BinaryOp} {tokens more : List Token} {left right : Expr}
      {position : Position} {found : Token} {error : ParseError} (hop : op.isAdditive = additive)
      (hright : Derives (.operand additive) tokens right)
      (hrest : Rejects (.links additive (.binary left ⟨op, .text op.symbol, some position⟩ right))
        more found error) :
    Rejects (.links additive left) (⟨.op op, position⟩ :: (tokens ++ more)) found error
  -- A line may start with `print`, though no expression does.
  | bare {tokens : List Token} {found : Token} {error : ParseError}
      (hexpr : Rejects .expr tokens found error) (hprint : tokens = [] → found.kind ≠ .print) :
    Rejects .line tokens found error
  | print {tokens : List Token} {found : Token} {error : ParseError}
      (hexpr : Rejects .expr tokens found error) (position : Position) :
    Rejects .line (⟨.print, position⟩ :: tokens) found error

/-- The tokens before a rejected one are the beginning of a stretch. -/
theorem Rejects.begins {symbol : Symbol} {tokens : List Token} {found : Token} {error : ParseError}
    (h : Rejects symbol tokens found error) : Begins symbol tokens := by
  induction h with
  | tooLarge hlexeme hvalue => exact .factor_nil
  | start hinteger hminus hgroup => exact .factor_nil
  | sign hinteger sign => exact .minus sign
  | group hbody opening ih => exact ih.group opening
  | unclosed hbody hstop hclosing opening => exact (Begins.of_derives hbody).group opening
  | first hfirst ih => exact ih.chain_first
  | rest hfirst hrest ih => exact ih.chain_rest hfirst
  | linkOperand hop hright position ih => exact ih.link_operand hop
  | linkRest hop hright hrest ih => exact ih.link_rest hop hright
  | bare hexpr hprint ih => exact ih.bare
  | print hexpr position ih => exact ih.print position

/-- A rejected token in a chain comes after an operator of the chain. -/
theorem Rejects.links_cases {additive : Bool} {left : Expr} {tokens : List Token} {found : Token}
    {error : ParseError} (h : Rejects (.links additive left) tokens found error) :
    ∃ op position rest, op.isAdditive = additive ∧ tokens = ⟨.op op, position⟩ :: rest := by
  cases h with
  | linkOperand hop hright position => exact ⟨_, _, _, hop, rfl⟩
  | linkRest hop hright hrest => exact ⟨_, _, _, hop, rfl⟩

/-- The error names the token that is rejected, and never as what follows a complete line. -/
theorem Rejects.found_eq {symbol : Symbol} {tokens : List Token} {found : Token}
    {error : ParseError} (h : Rejects symbol tokens found error) :
    error.found = some found ∧ error.code ≠ .trailingInput := by
  induction h with
  | tooLarge | start | sign | unclosed => exact ⟨rfl, by simp [ParseError.code]⟩
  | group _ _ ih | first _ ih | rest _ _ ih | linkOperand _ _ _ ih | linkRest _ _ _ ih
  | bare _ _ ih | print _ _ ih => exact ih

/-- Where a token is rejected the text cannot end either. -/
theorem Rejects.exists_eof {symbol : Symbol} {tokens : List Token} {found : Token}
    {error : ParseError} (h : Rejects symbol tokens found error) (position : Position) :
    ∃ other, Rejects symbol tokens ⟨.eof, position⟩ other := by
  have hkind (kind : Kind) (hne : Kind.eof ≠ kind) : (⟨.eof, position⟩ : Token).kind ≠ kind := hne
  induction h with
  | tooLarge | start =>
    -- The number is too large, but the end of the text is no number at all.
    exact ⟨_, .start (hkind _ (by simp)) (hkind _ (by simp)) (hkind _ (by simp))⟩
  | sign hinteger sign => exact ⟨_, .sign (hkind _ (by simp)) sign⟩
  | group hbody opening ih =>
    obtain ⟨other, h⟩ := ih
    exact ⟨other, h.group opening⟩
  | unclosed hbody hstop hclosing opening =>
    -- The end of the text is no operator, so it does not go on with the body.
    refine ⟨_, .unclosed hbody ?_ (hkind _ (by simp)) opening⟩
    rintro ⟨op, hop, -⟩
    cases hop
  | first hfirst ih =>
    obtain ⟨other, h⟩ := ih
    exact ⟨other, .first h⟩
  | rest hfirst hrest ih =>
    obtain ⟨other, h⟩ := ih
    exact ⟨other, .rest hfirst h⟩
  | linkOperand hop hright position ih =>
    obtain ⟨other, h⟩ := ih
    exact ⟨other, .linkOperand hop h position⟩
  | linkRest hop hright hrest ih =>
    obtain ⟨other, h⟩ := ih
    exact ⟨other, .linkRest hop hright h⟩
  | bare hexpr hprint ih =>
    obtain ⟨other, h⟩ := ih
    exact ⟨other, .bare h fun _ => hkind _ (by simp)⟩
  | print hexpr position ih =>
    obtain ⟨other, h⟩ := ih
    exact ⟨other, h.print position⟩

/-- The tokens are the beginning of a whole line that cannot go on with the token after them, for
the given reason. -/
inductive ProgramRejects : List Token → Token → ParseError → Prop
  | line {tokens : List Token} {found : Token} {error : ParseError}
      (hline : Rejects .line tokens found error) :
    ProgramRejects tokens found error
  | trailing {tokens : List Token} {tree : Expr} {found : Token} (hline : Derives .line tokens tree)
      (hstop : ¬Symbol.line.Extends found) (heof : found.kind ≠ .eof) :
    ProgramRejects tokens found (.trailingInput found)

namespace ProgramRejects

variable {tokens : List Token} {found : Token} {error : ParseError}

/-- The tokens before a rejected one are the beginning of a whole line. -/
theorem viable (h : ProgramRejects tokens found error) : Viable tokens := by
  cases h with
  | line hline => exact hline.begins.viable
  | trailing hline hstop heof => exact (Begins.of_derives hline).viable

/-- The error names the token that is rejected. -/
theorem found_eq (h : ProgramRejects tokens found error) : error.found = some found := by
  cases h with
  | line hline => exact hline.found_eq.1
  | trailing hline hstop heof => rfl

end ProgramRejects

end LineCalc.Grammar
