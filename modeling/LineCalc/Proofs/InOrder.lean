import LineCalc.Proofs.Pieces
import LineCalc.Proofs.Reading

/-!
# Trees in the order of their text

The tree of a text holds the tokens of the text, each once and in order. Left out are only the
parentheses, the signs of literals and the end. A minus is a sign unless it follows a number or a
closing parenthesis.

* `Expr.inOrder`: the tokens that a tree holds, from left to right.
* `Grammar.kept`: the tokens that a tree can hold.
* `Grammar.Derives.inOrder_append`: tokens that make a tree are those that it holds.
* `tree_invariants_of_parse`: what is true of every tree of a text.
-/

namespace LineCalc

/-! ### The nodes of a tree -/

namespace Expr

/-- The tokens that a tree holds, from left to right. A print comes before what it prints. -/
def inOrder : Expr → List TokenLabel
  | .num literal => [⟨.integer, .number literal.written, literal.position⟩]
  | .binary left operator right => left.inOrder ++ operator.label :: right.inOrder
  | .print position body => ⟨.print, .text printWord, position⟩ :: body.inOrder
  | .unknown _ => []

theorem subtreesOnto_eq (e : Expr) (after : List Expr) :
    e.subtreesOnto after = e.subtrees ++ after := by
  induction e generalizing after with
  | num literal => rfl
  | unknown name => rfl
  | print position body ih =>
    rw [subtrees, subtreesOnto, subtreesOnto, ih (_ :: after), ih [_], List.append_assoc]
    rfl
  | binary left operator right ihLeft ihRight =>
    rw [subtrees, subtreesOnto, subtreesOnto, ihLeft, ihLeft, ihRight (_ :: after), ihRight [_],
      List.append_assoc, List.append_assoc]
    rfl

@[simp]
theorem subtrees_num (literal : Literal) : (Expr.num literal).subtrees = [.num literal] := rfl

@[simp]
theorem subtrees_binary (left : Expr) (operator : Operator) (right : Expr) :
    (Expr.binary left operator right).subtrees =
      left.subtrees ++ (right.subtrees ++ [.binary left operator right]) := by
  rw [subtrees, subtreesOnto, subtreesOnto_eq, subtreesOnto_eq]

@[simp]
theorem subtrees_print (position : Option Position) (body : Expr) :
    (Expr.print position body).subtrees = body.subtrees ++ [.print position body] := by
  rw [subtrees, subtreesOnto, subtreesOnto_eq]

@[simp]
theorem subtrees_unknown (name : String) : (Expr.unknown name).subtrees = [.unknown name] := rfl

variable {e : Expr}

/-- A tree holds the operators of all its nodes. -/
theorem label_mem_inOrder {left right : Expr} {operator : Operator}
    (h : .binary left operator right ∈ e.subtrees) : operator.label ∈ e.inOrder := by
  induction e with
  | num literal => simp at h
  | unknown name => simp at h
  | print position body ih =>
    have hbody : .binary left operator right ∈ body.subtrees := by simpa using h
    exact List.mem_cons_of_mem _ (ih hbody)
  | binary first other second ihFirst ihSecond =>
    rw [subtrees_binary, List.mem_append, List.mem_append, List.mem_singleton] at h
    rw [inOrder, List.mem_append, List.mem_cons]
    rcases h with hleft | hright | hself
    · exact .inl (ihFirst hleft)
    · exact .inr (.inr (ihSecond hright))
    · cases hself
      exact .inr (.inl rfl)

/-- The subtrees of operations on words are such operations. -/
theorem isFormula_of_mem_subtrees (h : e.isFormula = true) :
    ∀ s ∈ e.subtrees, s.isFormula = true := by
  induction e with
  | num literal => simpa using h
  | binary left operator right ihLeft ihRight =>
    obtain ⟨hleft, hright⟩ := Bool.and_eq_true_iff.1 h
    rw [subtrees_binary]
    refine List.forall_mem_append.2 ⟨ihLeft hleft, List.forall_mem_append.2 ⟨ihRight hright, ?_⟩⟩
    simpa using h
  | print | unknown => cases h

/-- In a line only the root can be no operation on words, and it is then a print. -/
theorem isFormula_or_eq_of_isLine (h : e.isLine = true) :
    ∀ s ∈ e.subtrees, s.isFormula = true ∨ s = e ∧ s.isPrint = true := by
  intro s hs
  cases e with
  | print position body =>
    rw [subtrees_print, List.mem_append, List.mem_singleton] at hs
    rcases hs with hbody | rfl
    · exact .inl (isFormula_of_mem_subtrees (e := body) h s hbody)
    · exact .inr ⟨rfl, rfl⟩
  | num | binary | unknown => exact .inl (isFormula_of_mem_subtrees h s hs)

/-- Every literal is written without its sign. -/
def WritesMagnitudes (e : Expr) : Prop :=
  ∀ literal, .num literal ∈ e.subtrees → literal.written = literal.value.natAbs

theorem WritesMagnitudes.binary {left right : Expr} (hleft : left.WritesMagnitudes)
    (hright : right.WritesMagnitudes) (operator : Operator) :
    (Expr.binary left operator right).WritesMagnitudes := by
  intro literal h
  simp only [subtrees_binary, List.mem_append, List.mem_singleton, reduceCtorEq, or_false] at h
  rcases h with h | h
  · exact hleft literal h
  · exact hright literal h

end Expr

/-! ### Tokens that are kept -/

namespace Grammar

/-- An operand may end with a token of this kind. -/
def endsOperand : Option Kind → Bool
  | some .integer | some .rparen => true
  | _ => false

/-- A token that a tree holds, given the kind of the one before it. A minus is a sign where no
operand ends before it. -/
def isKept (last : Option Kind) (token : Token) : Bool :=
  match token.kind with
  | .lparen | .rparen | .eof => false
  | .op .sub => endsOperand last
  | _ => true

/-- The tokens that a tree holds, given the kind of the one before them. -/
def kept : Option Kind → List Token → List Token
  | _, [] => []
  | last, token :: rest =>
    if isKept last token then token :: kept (some token.kind) rest else kept (some token.kind) rest

/-- The tokens that are kept stay in order. -/
theorem kept_sublist (last : Option Kind) (tokens : List Token) :
    (kept last tokens).Sublist tokens := by
  induction tokens generalizing last with
  | nil => exact .slnil
  | cons token tokens ih =>
    rw [kept]
    split
    · exact (ih _).cons_cons token
    · exact (ih _).cons token

theorem kept_cons_of_true {last : Option Kind} {token : Token} (h : isKept last token = true)
    (rest : List Token) : kept last (token :: rest) = token :: kept (some token.kind) rest := by
  rw [kept, if_pos h]

theorem kept_cons_of_false {last : Option Kind} {token : Token} (h : isKept last token = false)
    (rest : List Token) : kept last (token :: rest) = kept (some token.kind) rest := by
  rw [kept, if_neg (by simp [h])]

namespace Symbol

/-- The tokens of the tree that a stretch goes on with. -/
def held : Symbol → List TokenLabel
  | .links _ left => left.inOrder
  | _ => []

/-- A stretch that follows an operand. -/
def isLinks : Symbol → Bool
  | .links _ _ => true
  | _ => false

theorem held_operand (additive : Bool) : (operand additive).held = [] := by
  cases additive <;> rfl

theorem isLinks_operand (additive : Bool) : (operand additive).isLinks = false := by
  cases additive <;> rfl

end Symbol

/-- Tokens that make a tree are those that it holds, and an operand ends with them. -/
theorem Derives.inOrder_append {symbol : Symbol} {tokens : List Token} {tree : Expr}
    (h : Derives symbol tokens tree) {last : Option Kind}
    (hlast : endsOperand last = symbol.isLinks) (more : List Token) :
    ∃ next, endsOperand next = true ∧
      symbol.held ++ (kept last (tokens ++ more)).map Token.label =
        tree.inOrder ++ (kept next more).map Token.label := by
  induction h generalizing last more with
  | number hvalue position => exact ⟨some .integer, rfl, rfl⟩
  | negated value sign position =>
    -- No operand ends before the minus, so it is a sign.
    have hsign : isKept last ⟨.op .sub, sign⟩ = false := hlast
    refine ⟨some .integer, rfl, ?_⟩
    rw [List.cons_append, kept_cons_of_false hsign]
    rfl
  | @group tokens body hbody opening closing ih =>
    have hopening : endsOperand (some .lparen) = Symbol.expr.isLinks := rfl
    obtain ⟨next, -, hkept⟩ := ih hopening (⟨.rparen, closing⟩ :: more)
    refine ⟨some .rparen, rfl, ?_⟩
    rw [List.cons_append, kept_cons_of_false rfl, List.append_assoc]
    exact hkept
  | @chain additive tokens others first tree hfirst hrest ihFirst ihRest =>
    -- The links go on after the first operand, with which an operand ends.
    obtain ⟨middle, hmiddle, hkeptFirst⟩ :=
      ihFirst (hlast.trans (Symbol.isLinks_operand additive).symm) (others ++ more)
    obtain ⟨next, hnext, hkeptRest⟩ := ihRest hmiddle more
    refine ⟨next, hnext, ?_⟩
    rw [Symbol.held_operand] at hkeptFirst
    rw [List.append_assoc, ← hkeptRest]
    exact hkeptFirst
  | done additive left => exact ⟨last, hlast, rfl⟩
  | @link additive op tokens others left right tree position hop hright hrest ihRight ihRest =>
    -- Behind an operand a minus is no sign, so every operator is kept.
    have hkept : isKept last ⟨.op op, position⟩ = true := by
      cases op with
      | sub => exact hlast
      | add | mul | div => rfl
    have hoperator : endsOperand (some (.op op)) = (Symbol.operand additive).isLinks :=
      (Symbol.isLinks_operand additive).symm
    obtain ⟨middle, hmiddle, hkeptRight⟩ := ihRight hoperator (others ++ more)
    obtain ⟨next, hnext, hkeptRest⟩ := ihRest hmiddle more
    refine ⟨next, hnext, ?_⟩
    rw [Symbol.held_operand, List.nil_append] at hkeptRight
    rw [List.cons_append, kept_cons_of_true hkept, List.append_assoc, List.map_cons, ← hkeptRest]
    show left.inOrder ++ _ :: (kept (some (.op op)) _).map Token.label =
      (left.inOrder ++ _ :: right.inOrder) ++ _
    rw [hkeptRight, List.append_assoc]
    rfl
  | bare hexpr ih => exact ih hlast more
  | @print tokens tree hexpr position ih =>
    have hprint : endsOperand (some .print) = Symbol.expr.isLinks := rfl
    obtain ⟨next, hnext, hkept⟩ := ih hprint more
    refine ⟨next, hnext, ?_⟩
    rw [List.cons_append, kept_cons_of_true rfl]
    exact congrArg (_ :: ·) hkept

/-- A whole line is made of the tokens that its tree holds, and those that no tree holds. -/
theorem Program.inOrder_eq {tokens : List Token} {tree : Expr} (h : Program tokens tree) :
    tree.inOrder = (kept none tokens).map Token.label := by
  obtain @⟨line, _, hline, position⟩ := h
  have hstart : endsOperand none = Symbol.line.isLinks := rfl
  obtain ⟨next, -, hkept⟩ := hline.inOrder_append hstart [⟨.eof, position⟩]
  have heof : kept next [⟨.eof, position⟩] = [] := rfl
  rw [heof, List.map_nil, List.append_nil] at hkept
  exact hkept.symm

/-! ### Signs -/

/-- The tree that a stretch goes on with writes its literals without their signs. -/
def Symbol.WritesMagnitudes : Symbol → Prop
  | .links _ left => left.WritesMagnitudes
  | _ => True

theorem Symbol.writesMagnitudes_operand (additive : Bool) :
    (operand additive).WritesMagnitudes := by
  cases additive <;> trivial

/-- In the tree of some tokens every literal is written without its sign. -/
theorem Derives.writesMagnitudes {symbol : Symbol} {tokens : List Token} {tree : Expr}
    (h : Derives symbol tokens tree) (hsymbol : symbol.WritesMagnitudes) :
    tree.WritesMagnitudes := by
  induction h with
  | number hvalue position =>
    intro literal hmem
    cases List.mem_singleton.1 hmem
    rfl
  | negated value sign position =>
    intro literal hmem
    cases List.mem_singleton.1 hmem
    simp
  | group hbody opening closing ih => exact ih trivial
  | @chain additive tokens more first tree hfirst hrest ihFirst ihRest =>
    exact ihRest (ihFirst (Symbol.writesMagnitudes_operand additive))
  | done additive left => exact hsymbol
  | @link additive op tokens more left right tree position hop hright hrest ihRight ihRest =>
    have hleft : left.WritesMagnitudes := hsymbol
    exact ihRest (hleft.binary (ihRight (Symbol.writesMagnitudes_operand additive)) _)
  | bare hexpr ih => exact ih trivial
  | print hexpr position ih =>
    intro literal hmem
    exact ih trivial literal (by simpa using hmem)

end Grammar

open Grammar

/-! ### Trees of texts -/

/-- The tree of a text holds tokens of the text only: all of them but for the parentheses, the signs
and the end. -/
theorem inOrder_of_parse {levels : Nat} {text : String} {tree : Expr}
    (h : (parse levels text).result = .ok tree) :
    ∃ tokens, (Feed.ofText text).tokens = (tokens, none) ∧
      tree.inOrder = (kept none tokens).map Token.label := by
  obtain ⟨tokens, htokens, hprogram⟩ := Feed.program_of_parse (Feed.ofText_regular text) h
  exact ⟨tokens, htokens, hprogram.inOrder_eq⟩

/-- In the tree of a text every literal is written without its sign. -/
theorem writesMagnitudes_of_parse {levels : Nat} {text : String} {tree : Expr}
    (h : (parse levels text).result = .ok tree) : tree.WritesMagnitudes := by
  obtain ⟨tokens, -, hline, -⟩ := Feed.program_of_parse (Feed.ofText_regular text) h
  exact hline.writesMagnitudes trivial

/-- A node of an operator stands for a token of the text. -/
theorem exists_token_of_binary {levels : Nat} {text : String} {tree left right : Expr}
    {operator : Operator} (h : (parse levels text).result = .ok tree)
    (hmem : .binary left operator right ∈ tree.subtrees) :
    ∃ op position, operator = ⟨op, .text op.symbol, some position⟩ ∧
      ⟨.op op, position⟩ ∈ (Feed.ofText text).tokens.1 := by
  obtain ⟨tokens, htokens, hinOrder⟩ := inOrder_of_parse h
  have hheld := Expr.label_mem_inOrder hmem
  rw [hinOrder] at hheld
  obtain ⟨⟨lexeme, position⟩, htoken, hlabel⟩ := List.mem_map.1 hheld
  obtain ⟨op, shown, place⟩ := operator
  obtain ⟨hkind, hshown, hplace⟩ := TokenLabel.mk.inj hlabel
  -- Only the token of an operator has the kind of one.
  cases lexeme with
  | op o =>
    obtain rfl : o = op := Kind.op.inj hkind
    obtain rfl : .text o.symbol = shown := hshown
    obtain rfl : some position = place := hplace
    refine ⟨o, position, rfl, ?_⟩
    rw [htokens]
    exact (kept_sublist none tokens).mem htoken
  | integer | lparen | rparen | print | eof => cases hkind

/-- The tree of a text has words as literals, each written without its sign, so that only the least
one is written with a magnitude that is no word. It has a print at its root or nowhere, and every
operator is shown by its own character. The tokens that it holds are those of the text, but for the
parentheses, the signs and the end, and they stand one after another. -/
theorem tree_invariants_of_parse {levels : Nat} {text : String} {tree : Expr}
    (h : (parse levels text).result = .ok tree) :
    (∀ literal, .num literal ∈ tree.subtrees →
        Word.InRange literal.value ∧ literal.written = literal.value.natAbs ∧
          (literal.written = 2147483648 → literal.value = Word.minValue)) ∧
      (∀ position body, .print position body ∈ tree.subtrees → tree = .print position body) ∧
      (∀ left operator right, .binary left operator right ∈ tree.subtrees →
        operator.shown = .text operator.op.symbol) ∧
      (∀ name, .unknown name ∉ tree.subtrees) ∧
      (∃ tokens, (Feed.ofText text).tokens = (tokens, none) ∧
        tree.inOrder = (kept none tokens).map Token.label) ∧
      ∃ places : List Position, tree.inOrder.map (·.position) = places.map some ∧
        places.Pairwise Position.Before := by
  have hnodes := Expr.isFormula_or_eq_of_isLine (isLine_of_parse h)
  refine ⟨fun literal hmem => ?_, fun position body hmem => ?_, fun left operator right hmem => ?_,
    fun name hmem => ?_, inOrder_of_parse h, ?_⟩
  · have hwritten := writesMagnitudes_of_parse h literal hmem
    rcases hnodes _ hmem with hformula | ⟨-, hprint⟩
    · have hrange : Word.InRange literal.value := of_decide_eq_true hformula
      refine ⟨hrange, hwritten, fun hmagnitude => ?_⟩
      simp only [Word.InRange, Word.minValue, Word.maxValue] at *
      omega
    · cases hprint
  · rcases hnodes _ hmem with hformula | ⟨hroot, -⟩
    · cases hformula
    · exact hroot.symm
  · obtain ⟨op, position, rfl, -⟩ := exists_token_of_binary h hmem
    rfl
  · rcases hnodes _ hmem with hformula | ⟨-, hprint⟩
    · cases hformula
    · cases hprint
  · obtain ⟨tokens, htokens, hinOrder⟩ := inOrder_of_parse h
    refine ⟨(kept none tokens).map (·.position), by simp [hinOrder, Token.label], ?_⟩
    -- The tokens of the text are in order, and so are those that are kept of them.
    have hordered := pairwise_tokens text
    rw [htokens] at hordered
    exact List.pairwise_map.2 (hordered.sublist (kept_sublist none tokens))

/-- A print over two lines, with differences, signs and the least word. -/
theorem tree_invariants_of_parse_signs :
    let text := "print (-2147483648-\n-1)-(-3)"
    let tree : Expr := .print (some ⟨1, 1⟩) (.binary (.binary
      (.num ⟨2147483648, -2147483648, some ⟨1, 9⟩⟩) ⟨.sub, .text "-", some ⟨1, 19⟩⟩
      (.num ⟨1, -1, some ⟨2, 2⟩⟩)) ⟨.sub, .text "-", some ⟨2, 4⟩⟩ (.num ⟨3, -3, some ⟨2, 7⟩⟩))
    (parse 200 text).result = .ok tree ∧
      ∃ places : List Position, tree.inOrder.map (·.position) = places.map some ∧
        places.Pairwise Position.Before := by
  intro text tree
  have hparse : (parse 200 text).result = .ok tree := by decide +kernel
  exact ⟨hparse, (tree_invariants_of_parse hparse).2.2.2.2.2⟩

end LineCalc
