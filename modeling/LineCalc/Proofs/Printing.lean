import LineCalc.Proofs.Reading
import LineCalc.Proofs.Walk

/-!
# Printing a tree

A tree of operations on words has a text of its own, in which an operand stands in parentheses only
where it would be read differently without them. Parsing that text gives the tree back, up to the
places of its tokens, and no other text of the tree has fewer parentheses.

* `Expr.text`: the text of a tree.
* `Expr.reads_chars`: the characters of a tree stand for it.
* `Grammar.Derives.cost_le`: no tokens of a tree have fewer parentheses than its characters.
* `parse_text_of_isLine`: parsing undoes printing, and printing spends no parentheses.
-/

namespace LineCalc

open LineCalc.Grammar LineCalc.Parser

/-! ### The text of a tree -/

namespace Expr

/-- Trees with a sum or a difference at the root. -/
def isSum : Expr → Bool
  | .binary _ operator _ => operator.op.isAdditive
  | _ => false

/-- Characters, in parentheses if that is asked for. -/
def enclose (enclosed : Bool) (chars : List Char) : List Char :=
  if enclosed then '(' :: (chars ++ [')']) else chars

/-- A left operand stands in parentheses if it is a sum and the operator binds tighter. -/
def enclosesLeft (op : BinaryOp) (left : Expr) : Bool := !op.isAdditive && left.isSum

/-- A right operand stands in parentheses if its own operator does not bind tighter. -/
def enclosesRight (op : BinaryOp) (right : Expr) : Bool :=
  if op.isAdditive then right.isSum else right.isBinary

/-- The characters of a tree. -/
def chars : Expr → List Char
  | .num literal => (toString literal.value).toList
  | .binary left operator right =>
    enclose (enclosesLeft operator.op left) left.chars ++
      operator.op.char :: enclose (enclosesRight operator.op right) right.chars
  | .print _ body => printWord.toList ++ ' ' :: body.chars
  | .unknown _ => []

/-- The text of a tree. -/
def text (e : Expr) : String := String.ofList e.chars

@[simp]
theorem isSum_outline (e : Expr) : e.outline.isSum = e.isSum := by cases e <;> rfl

@[simp]
theorem isBinary_outline (e : Expr) : e.outline.isBinary = e.isBinary := by cases e <;> rfl

/-- The characters of a tree show its outline only. -/
theorem chars_outline (e : Expr) : e.outline.chars = e.chars := by
  induction e with
  | num literal => rfl
  | binary left operator right ihLeft ihRight =>
    simp only [outline, chars, enclosesLeft, enclosesRight, isSum_outline, isBinary_outline, ihLeft,
      ihRight]
  | print position body ih => rw [outline, chars, chars, ih]
  | unknown name => rfl

/-! ### Reading it back -/

/-- What a tree is read as without parentheses: an operation is a chain of its own rank. -/
def rank : Expr → Symbol
  | .binary _ operator _ => .chain operator.op.isAdditive
  | _ => .factor

end Expr

namespace Reads

variable {chars : List Char} {e : Expr}

/-- What is read at the rank of its tree is an expression. -/
theorem expr_of_rank (h : Reads e.rank chars e) : Reads .expr chars e := by
  cases e with
  | binary left operator right =>
    cases hop : operator.op.isAdditive with
    | true => rwa [Expr.rank, hop] at h
    | false =>
      rw [Expr.rank, hop] at h
      exact single h
  | num | print | unknown =>
    have hfactor : Reads (.operand false) chars _ := h
    exact single hfactor.single

/-- In parentheses, where these are asked for, it is a chain that an operator goes on with. -/
theorem enclose_left (h : Reads e.rank chars e) (op : BinaryOp) :
    Reads (.chain op.isAdditive) (Expr.enclose (Expr.enclosesLeft op e) chars) e := by
  cases hop : op.isAdditive with
  | true =>
    rw [Expr.enclosesLeft, hop]
    exact h.expr_of_rank
  | false =>
    rw [Expr.enclosesLeft, hop]
    cases hsum : e.isSum with
    | true => exact single h.expr_of_rank.group
    | false =>
      -- A tree that is no sum is a term already, or a factor, which is a term too.
      cases e with
      | binary left operator right =>
        have hrank : operator.op.isAdditive = false := hsum
        rwa [Expr.rank, hrank] at h
      | num | print | unknown => exact single h

/-- In parentheses, where these are asked for, it is an operand to the right of an operator. -/
theorem enclose_right (h : Reads e.rank chars e) (op : BinaryOp) :
    Reads (.operand op.isAdditive) (Expr.enclose (Expr.enclosesRight op e) chars) e := by
  cases hop : op.isAdditive with
  | true =>
    -- The operands of a sum are terms, as is what a product goes on with.
    have hterm := h.enclose_left .mul
    rw [Expr.enclosesRight, hop]
    exact hterm
  | false =>
    rw [Expr.enclosesRight, hop]
    cases e with
    | binary left operator right => exact h.expr_of_rank.group
    | num | print | unknown => exact h

end Reads

namespace Expr

/-- The characters of operations on words stand for them, at their own rank. -/
theorem reads_chars {e : Expr} (h : e.isFormula = true) : Reads e.rank e.chars e := by
  induction e with
  | num literal => exact .number (of_decide_eq_true h)
  | binary left operator right ihLeft ihRight =>
    obtain ⟨hleft, hright⟩ := Bool.and_eq_true_iff.1 h
    exact ((ihLeft hleft).enclose_left operator.op).link rfl
      ((ihRight hright).enclose_right operator.op)
  | print | unknown => cases h

/-- The text of a line stands for it. -/
theorem reads_text {e : Expr} (h : e.isLine = true) : Reads .line e.text.toList e := by
  rw [text, String.toList_ofList]
  cases e with
  | print position body =>
    have hbody := reads_chars (e := body) h
    exact hbody.expr_of_rank.print position
  | num | binary | unknown => exact (reads_chars h).expr_of_rank.bare

end Expr

/-! ### Fewest parentheses -/

/-- The number of opening parentheses. -/
def parens (chars : List Char) : Nat := chars.count '('

@[simp]
theorem parens_cons (c : Char) (chars : List Char) :
    parens (c :: chars) = parens chars + if c = '(' then 1 else 0 := by
  simp [parens, List.count_cons]

@[simp]
theorem parens_append (first second : List Char) :
    parens (first ++ second) = parens first + parens second := List.count_append

/-- Characters without a parenthesis among them have none. -/
theorem parens_eq_zero {chars : List Char} (h : ∀ c ∈ chars, c ≠ '(') : parens chars = 0 :=
  List.count_eq_zero.2 fun hmem => h _ hmem rfl

/-- Digits are no parentheses. -/
theorem parens_digits {digits : List Char} (h : ∀ c ∈ digits, c.isDigit = true) :
    parens digits = 0 := by
  refine parens_eq_zero fun c hmem => ?_
  rintro rfl
  have hdigit := h _ hmem
  simp at hdigit

/-- The decimal of a number has no parentheses. -/
theorem parens_toString (value : Int) : parens (toString value).toList = 0 := by
  have hdigits (n : Nat) : parens (Nat.toDigits 10 n) = 0 :=
    parens_digits fun c hc => Nat.isDigit_of_mem_toDigits (by decide) (by decide) hc
  rw [Int.toString_eq_repr, Int.repr_eq_if]
  split
  · rw [Nat.toList_repr, hdigits]
  · rw [String.toList_append, parens_append, Nat.toList_repr, hdigits]
    rfl

/-- The parentheses of a text are those among its lexemes. -/
theorem Lexes.parens_eq {last : Option Kind} {chars : List Char} {read : List Lexeme}
    (h : Lexes last chars read) : parens chars = read.count .lparen := by
  have hgap_zero {gap : List Char} (hgap : ∀ c ∈ gap, Text.isGap c = true) : parens gap = 0 := by
    refine parens_eq_zero fun c hmem => ?_
    rintro rfl
    exact absurd (hgap _ hmem) (by decide)
  induction h with
  | done hgap => exact hgap_zero hgap
  | @lexeme last gap word rest first more hgap hword hfits hend hrest ih =>
    have hone : parens word = if first = .lparen then 1 else 0 := by
      cases hword with
      | number hne hdigits hlength => exact parens_digits hdigits
      | print => decide
      | single hchar =>
        unfold Lexeme.ofChar? at hchar
        split at hchar <;> cases hchar <;> decide
    simp only [parens_append, hgap_zero hgap, hone, ih, List.count_cons, beq_iff_eq]
    omega

@[simp]
theorem Expr.parens_enclose (enclosed : Bool) (chars : List Char) :
    parens (enclose enclosed chars) = parens chars + if enclosed then 1 else 0 := by
  cases enclosed <;> simp [enclose, parens]

namespace Grammar

/-- The parentheses that the characters of a tree take where a symbol is read, those around the
whole tree included. -/
def Symbol.cost : Symbol → Expr → Nat
  | .factor, e => parens (Expr.enclose e.isBinary e.chars)
  | .chain additive, e | .links additive _, e =>
    parens (Expr.enclose (!additive && e.isSum) e.chars)
  | .line, e => parens e.chars

/-- The parentheses of the tree that a symbol goes on with. -/
def Symbol.spent : Symbol → Nat
  | .links additive left => (Symbol.chain additive).cost left
  | _ => 0

/-- A number takes no parentheses. -/
theorem Symbol.cost_num (literal : Literal) : Symbol.factor.cost (.num literal) = 0 :=
  parens_toString literal.value

/-- A factor takes at most one more pair of parentheses than an expression. -/
theorem Symbol.cost_factor_le (e : Expr) : Symbol.factor.cost e ≤ Symbol.expr.cost e + 1 := by
  simp only [cost, Expr.parens_enclose, Bool.not_true, Bool.false_and]
  split <;> simp

/-- A chain takes no more parentheses around a tree than an operand does. -/
theorem Symbol.cost_chain_le (additive : Bool) (e : Expr) :
    (Symbol.chain additive).cost e ≤ (operand additive).cost e := by
  cases additive with
  | true => simp [cost, operand]
  | false =>
    have hsum : e.isSum = true → e.isBinary = true := by
      cases e <;> simp [Expr.isSum, Expr.isBinary]
    simp only [cost, operand, Expr.parens_enclose, Bool.not_false, Bool.true_and]
    split <;> simp_all

/-- An operation takes the parentheses of its operands and none around itself. -/
theorem Symbol.cost_binary {additive : Bool} {operator : Operator}
    (hop : operator.op.isAdditive = additive) (left right : Expr) :
    (Symbol.chain additive).cost (.binary left operator right) =
      (Symbol.chain additive).cost left + (operand additive).cost right := by
  have hchar : operator.op.char ≠ '(' := by cases operator.op <;> decide
  cases additive <;>
    simp [cost, operand, Expr.chars, Expr.isSum, Expr.enclosesLeft, Expr.enclosesRight, hop, hchar]

theorem Symbol.spent_operand (additive : Bool) : (operand additive).spent = 0 := by
  cases additive <;> rfl

/-- Tokens that make a tree have no fewer parentheses than its characters take. -/
theorem Derives.cost_le {symbol : Symbol} {tokens : List Token} {tree : Expr}
    (h : Derives symbol tokens tree) :
    symbol.cost tree ≤ symbol.spent + (lexemes tokens).count .lparen := by
  -- In a chain the tree so far has been paid for, so each link only pays for its own operand.
  induction h with
  | number hvalue position => simp [Symbol.cost_num]
  | negated value sign position => simp [Symbol.cost_num]
  | @group tokens body hbody opening closing ih =>
    have hle := Symbol.cost_factor_le body
    simp only [Symbol.spent, lexemes_cons, lexemes_append, lexemes_nil, List.count_append,
      List.count_cons_self] at ih ⊢
    omega
  | @chain additive tokens more first tree hfirst hrest ihFirst ihRest =>
    have hle := Symbol.cost_chain_le additive first
    have hchain : (Symbol.chain additive).cost tree ≤
        (Symbol.chain additive).cost first + (lexemes more).count .lparen := ihRest
    rw [Symbol.spent_operand] at ihFirst
    rw [lexemes_append, List.count_append]
    omega
  | done additive left => exact Nat.le_add_right _ _
  | @link additive op tokens more left right tree position hop hright hrest ihRight ihRest =>
    have hbinary := @Symbol.cost_binary additive ⟨op, .text op.symbol, some position⟩ hop left right
    have hchain : (Symbol.chain additive).cost tree ≤ (Symbol.chain additive).cost
        (.binary left ⟨op, .text op.symbol, some position⟩ right) + (lexemes more).count .lparen :=
      ihRest
    have hlinks : (lexemes (⟨.op op, position⟩ :: (tokens ++ more))).count .lparen =
        (lexemes tokens).count .lparen + (lexemes more).count .lparen := by simp
    rw [Symbol.spent_operand] at ihRight
    show (Symbol.chain additive).cost tree ≤ (Symbol.chain additive).cost left + _
    omega
  | bare hexpr ih => simpa [Symbol.cost, Symbol.spent] using ih
  | @print tokens tree hexpr position ih =>
    have hword : parens printWord.toList = 0 := by decide
    simpa [Symbol.cost, Symbol.spent, Expr.chars, hword] using ih

end Grammar

/-- No text of a tree has fewer parentheses than its own one. -/
theorem Expr.parens_text_le {levels : Nat} {e tree : Expr} {other : String}
    (h : (parse levels other).result = .ok tree) (houtline : tree.outline = e.outline) :
    parens e.text.toList ≤ parens other.toList := by
  obtain ⟨tokens, hderives, hlexes⟩ := exists_lexes_of_parse h
  have hchars : e.chars = tree.chars := by rw [← chars_outline e, ← houtline, chars_outline]
  calc parens e.text.toList
      = Symbol.line.cost tree := by rw [text, String.toList_ofList, hchars]; rfl
    _ ≤ 0 + (lexemes tokens).count .lparen := hderives.cost_le
    _ = parens other.toList := by rw [Nat.zero_add, hlexes.parens_eq]

/-- Parsing undoes printing: the text of a line is parsed to a tree with the outline of the line, if
its parentheses keep to the limit. No other text that is parsed to such a tree has fewer of them. -/
theorem parse_text_of_isLine {levels : Nat} {e : Expr} (hline : e.isLine = true)
    (hnest : NestsWithin levels (Feed.ofText e.text).tokens.1) :
    (∃ tree, (parse levels e.text).result = .ok tree ∧ tree.outline = e.outline) ∧
      ∀ other tree, (parse levels other).result = .ok tree → tree.outline = e.outline →
        parens e.text.toList ≤ parens other.toList :=
  ⟨parse_of_reads (Expr.reads_text hline) hnest, fun _ _ => Expr.parens_text_le⟩

/-- The product of a difference, whose second operand is the least word, and a quotient. -/
theorem parse_text_of_isLine_product :
    let e : Expr := .print none (.binary
      (.binary (.num ⟨8, 8, none⟩) ⟨.sub, .text "-", none⟩ (.num ⟨2147483648, -2147483648, none⟩))
      ⟨.mul, .text "*", none⟩
      (.binary (.num ⟨6, 6, none⟩) ⟨.div, .text "/", none⟩ (.num ⟨3, -3, none⟩)))
    e.isLine = true ∧ e.text = "print (8--2147483648)*(6/-3)" ∧
      NestsWithin 200 (Feed.ofText e.text).tokens.1 ∧
      ∃ tree, (parse 200 e.text).result = .ok tree ∧ tree.outline = e.outline := by
  intro e
  have htext : e.text = "print (8--2147483648)*(6/-3)" := by decide +kernel
  have hnest : NestsWithin 200 (Feed.ofText e.text).tokens.1 := by
    refine (nestsWithin_length _).mono ?_
    rw [htext]
    decide +kernel
  exact ⟨by decide, htext, hnest, (parse_text_of_isLine (by decide) hnest).1⟩

end LineCalc
