import Mathlib.Data.List.Induction
import LineCalc.Proofs.Depth
import LineCalc.Proofs.Lexing
import LineCalc.Proofs.Parsing

/-!
# Nesting

Only open parentheses take levels: one each of the parser's, and at most two each of those that a
walk over the parsed tree has. How long a text is does not matter for either.

* `Feed.not_nestsWithin_of_tooDeep`, `Feed.parse_of_deep`: the parser runs out of levels at the
  first parenthesis beyond its limit, if the tokens up to there are the beginning of a line.
* `parse_nesting`: which texts are nested too deeply to be parsed.
* `Expr.depth_eq_leftSpine`: the levels of an operation, along its left spine.
* `Grammar.Derives.keeps`: the levels that the tree of a stretch of tokens takes.
* `depth_le_of_parse`: the levels that the tree of a text takes.
-/

namespace LineCalc

open LineCalc.Grammar LineCalc.Parser

/-! ### The levels of the parser -/

/-- The beginning of what a line begins with is one, too. -/
theorem Grammar.Viable.of_append {tokens more : List Token} (h : Viable (tokens ++ more)) :
    Viable tokens := by
  obtain ⟨continuation, tree, hprogram⟩ := h
  exact ⟨more ++ continuation, tree, by rwa [← List.append_assoc]⟩

/-- Tokens that are eaten and nest within some levels end before tokens ahead that do not. -/
theorem Parser.Eats.exists_front_eq {p q : Parser} {tokens front more : List Token} {last : Token}
    {levels : Nat} (h : Eats p tokens q) (hregular : p.feed.Regular)
    (htokens : p.tokens.1 = front ++ last :: more) (hnest : NestsWithin levels tokens)
    (hdeep : ¬NestsWithin levels front) :
    ∃ others, front = tokens ++ q.current :: others ∧
      q.tokens.1 = q.current :: (others ++ last :: more) := by
  obtain ⟨rest, hrest⟩ := q.exists_tokens_eq
  rw [h.tokens_eq hregular, hrest] at htokens
  rcases List.append_eq_append_iff.1 htokens with ⟨between, rfl, hbetween⟩ | ⟨between, rfl, -⟩
  · cases between with
    | nil => exact absurd (by simpa using hnest) hdeep
    | cons first others =>
      obtain ⟨rfl, rfl⟩ := List.cons.inj hbetween
      exact ⟨others, rfl, hrest⟩
  · exact absurd hnest.of_append hdeep

namespace Feed

variable {feed : Feed} {levels : Nat}

/-- A feed on which the parser runs out of levels holds tokens that nest more deeply. -/
theorem not_nestsWithin_of_tooDeep (hregular : feed.Regular)
    (hdefect : feed.tokens.2 ≠ some (.defect .tooDeep))
    (h : (feed.parse levels).result = .error (.error .tooDeep)) :
    ¬NestsWithin levels feed.tokens.1 := by
  cases hstart : Parser.start feed with
  | error failure =>
    obtain ⟨cause, rfl, -⟩ := start_error hstart
    rw [parse_of_start_error hstart] at h
    cases cause <;> cases h
  | ok p =>
    obtain ⟨hp, hahead, -⟩ := start_ok hregular hstart
    have hends := programWithin_ends levels hp
    rw [parse_of_start hstart] at h
    generalize programWithin levels p = result at h hends
    cases hends with
    | accepts => cases h
    | rejects _ _ hrejects =>
      cases h
      cases hrejects.found_eq
    | @starves tokens failure q after heats hcurrent hnext =>
      -- The failure that ends the feed would have to be the missing level itself.
      refine absurd ?_ hdefect
      rw [← hahead, heats.tokens_eq hp.regular, tokens_of_advance_error hcurrent hnext]
      cases failure with
      | error e => cases h
      | defect d =>
        cases d <;> cases h
        rfl
    | tooDeep heats hdeep =>
      -- What was eaten nests too deeply already, so all tokens together do.
      intro hnest
      rw [← hahead, heats.tokens_eq hp.regular] at hnest
      exact hdeep hnest.of_append

/-- The parser runs out of levels on the beginning of a line that nests too deeply, whatever follows
it. One more token has to be there, because it is drawn before the level is missed. -/
theorem parse_of_deep (hregular : feed.Regular) {front more : List Token} {last : Token}
    (htokens : feed.tokens.1 = front ++ last :: more) (hviable : Viable (front ++ [last]))
    (hdeep : ¬NestsWithin levels front) :
    (feed.parse levels).result = .error (.error .tooDeep) := by
  cases hstart : Parser.start feed with
  | error failure =>
    obtain ⟨cause, -, hempty⟩ := start_error hstart
    simp [hempty] at htokens
  | ok p =>
    obtain ⟨hp, hahead, -⟩ := start_ok hregular hstart
    rw [← hahead] at htokens
    have hends := programWithin_ends levels hp
    rw [parse_of_start hstart]
    generalize programWithin levels p = result at hends
    -- Any other end comes before the front is eaten: the tokens up to there nest within the limit.
    cases hends with
    | accepts heats heof _ hnest =>
      obtain ⟨others, -, hothers⟩ := heats.exists_front_eq hp.regular htokens hnest hdeep
      simp [Parser.tokens, heof] at hothers
    | rejects heats hnest hrejects =>
      obtain ⟨others, rfl, -⟩ := heats.exists_front_eq hp.regular htokens hnest hdeep
      have hfront := hviable.of_append
      rw [List.append_cons] at hfront
      exact absurd hfront.of_append hrejects.not_viable
    | starves heats hcurrent hnext _ _ hnest =>
      obtain ⟨others, -, hothers⟩ := heats.exists_front_eq hp.regular htokens hnest hdeep
      simp [tokens_of_advance_error hcurrent hnext] at hothers
    | tooDeep => rfl

end Feed

/-- On every platform, a text in which never more than two hundred parentheses are open is not
nested too deeply to be parsed, however long it is. A text that starts like a line, and at some
point of that has a thousand parentheses open, is reported as nested too deeply, without a place,
whatever follows. -/
theorem parse_nesting [Platform] (listed : Bool) (text : String) :
    (NestsWithin 200 (Feed.ofText text).tokens.1 →
        ∀ error, (parse (nestingLimit listed) text).result = .error (.error error) →
          error.code ≠ .nestingTooDeep) ∧
      ∀ tokens : List Token, tokens <+: (Feed.ofText text).tokens.1 → Viable tokens →
        tokens.countP (·.kind == .rparen) + 1000 ≤ tokens.countP (·.kind == .lparen) →
        ∃ error, (parse (nestingLimit listed) text).result = .error (.error error) ∧
          error.report.stage = .parser ∧ error.report.code = .nestingTooDeep ∧
          error.report.position = none := by
  have hregular := Feed.ofText_regular text
  constructor
  · intro hnest error h hcode
    -- Only one cause has this code, and the scanner never gives it.
    obtain rfl : error = .tooDeep := by
      cases error with
      | tooDeep => rfl
      | unexpectedToken | trailingInput | numberTooLarge | lexical => cases hcode
    refine Feed.not_nestsWithin_of_tooDeep hregular (fun hdefect => ?_) h
      (hnest.mono (Platform.le_nestingLimit listed))
    obtain ⟨digits, -, -, -, hoverlong⟩ := Cursor.exists_run_of_defect hdefect
    cases hoverlong
  · rintro tokens ⟨more, hmore⟩ hviable hcount
    obtain rfl | ⟨front, last, rfl⟩ := tokens.eq_nil_or_concat
    · simp at hcount
    rw [List.concat_eq_append] at hmore hviable hcount
    -- Already before the last of these tokens the limit is passed by far.
    have hdeep : ¬NestsWithin (nestingLimit listed) front := by
      intro hnest
      have hlimit := Platform.nestingLimit_le listed
      have hall := hnest front.length
      have hlast : [last].countP (·.kind == .lparen) ≤ 1 := List.countP_le_length
      rw [List.take_length] at hall
      rw [List.countP_append, List.countP_append] at hcount
      omega
    rw [List.append_assoc] at hmore
    exact ⟨.tooDeep, Feed.parse_of_deep hregular hmore.symm hviable hdeep, rfl, rfl, rfl⟩

/-- Tokens are counted by their kind as their lexemes are. -/
theorem countP_lexemes (tokens : List Token) (kind : Kind) :
    (lexemes tokens).countP (·.kind == kind) = tokens.countP (·.kind == kind) :=
  List.countP_map

/-- Tokens that are all opening parentheses are counted by their kind. -/
theorem countP_of_replicate {n : Nat} {tokens : List Token}
    (h : lexemes tokens = List.replicate n .lparen) (kind : Kind) :
    tokens.countP (·.kind == kind) = if Lexeme.lparen.kind == kind then n else 0 := by
  rw [← countP_lexemes, h, List.countP_replicate]

/-- Opening parentheses in front of a text are read one by one. -/
theorem exists_tokens_of_replicate {chars : List Char} {read : List Lexeme}
    (h : ∀ last, Lexes last chars read) (n : Nat) :
    ∃ front back, (Feed.ofText (String.ofList (List.replicate n '(' ++ chars))).tokens =
        (front ++ back, none) ∧
      lexemes front = List.replicate n .lparen ∧ lexemes back = read ++ [.eof] := by
  have hopening : Lexeme.ofChar? '(' = some .lparen := rfl
  obtain ⟨tokens, htokens, hlexemes⟩ :=
    Cursor.exists_tokens_of_lexes (Lexes.replicate hopening h n none) (c := .ofText _) rfl
      String.toList_ofList
  rw [List.append_assoc] at hlexemes
  obtain ⟨front, back, rfl, hfront, hback⟩ := lexemes_eq_append hlexemes
  exact ⟨front, back, htokens, hfront, hback⟩

/-- An expression may begin with any number of opening parentheses. -/
theorem Grammar.Begins.of_replicate {n : Nat} {tokens : List Token}
    (h : lexemes tokens = List.replicate n .lparen) : Begins .expr tokens := by
  induction n generalizing tokens with
  | zero =>
    obtain rfl := lexemes_eq_nil h
    exact expr_nil
  | succ n ih =>
    obtain ⟨position, rest, rfl, hrest⟩ := lexemes_eq_cons h
    exact chain_first (chain_first ((ih hrest).group position))

open scoped Platform in
/-- A tower of a thousand parentheses with nothing in it is too deep, while a parenthesis that is
not closed is another error. -/
theorem parse_nesting_tower :
    (∃ error, (parse (nestingLimit true) "((1)").result = .error (.error error) ∧
        error.code ≠ .nestingTooDeep) ∧
      ∃ error, (parse (nestingLimit false) (String.ofList (List.replicate 1000 '('))).result =
          .error (.error error) ∧
        error.report.code = .nestingTooDeep ∧ error.report.position = none := by
  constructor
  · have htokens : (Feed.ofText "((1)").tokens.1 = [⟨.lparen, ⟨1, 1⟩⟩, ⟨.lparen, ⟨1, 2⟩⟩,
        ⟨.integer 1, ⟨1, 3⟩⟩, ⟨.rparen, ⟨1, 4⟩⟩, ⟨.eof, ⟨1, 5⟩⟩] := by decide +kernel
    have herror : (parse (nestingLimit true) "((1)").result =
        .error (.error (.unexpectedToken ⟨.eof, ⟨1, 5⟩⟩ .rparen)) := by decide +kernel
    exact ⟨_, herror, (parse_nesting true "((1)").1 (by simp [htokens]) _ herror⟩
  · obtain ⟨front, back, htokens, hfront, -⟩ :=
      exists_tokens_of_replicate Lexes.nil 1000
    rw [List.append_nil] at htokens
    have hcount := countP_of_replicate hfront
    obtain ⟨error, herror, -, hcode, hposition⟩ :=
      (parse_nesting false _).2 front ⟨back, by rw [htokens]⟩
        (Begins.of_replicate hfront).bare.viable (by rw [hcount, hcount]; decide)
    exact ⟨error, herror, hcode, hposition⟩

/-! ### The levels of a walk -/

namespace Expr

/-- The levels that a tree takes as a left operand: an operation goes on with the spine. -/
def depthAsLeft (e : Expr) : Nat := if e.isBinary then e.depth else e.depth + 1

theorem depthAsLeft_binary (left : Expr) (operator : Operator) (right : Expr) :
    (Expr.binary left operator right).depthAsLeft = max left.depthAsLeft (right.depth + 1) := rfl

theorem depth_le_depthAsLeft (e : Expr) : e.depth ≤ e.depthAsLeft := by
  rw [depthAsLeft]
  split <;> omega

theorem depthAsLeft_le (e : Expr) : e.depthAsLeft ≤ e.depth + 1 := by
  rw [depthAsLeft]
  split <;> omega

/-- An operation takes one level more than the tree at the bottom of its left spine and the right
operands along the spine do. -/
theorem depth_eq_leftSpine (left : Expr) (operator : Operator) (right : Expr) :
    (Expr.binary left operator right).depth =
      (leftSpine (.binary left operator right)).links.foldl
        (fun levels link => max levels link.right.depth)
        (leftSpine (.binary left operator right)).base.depth + 1 := by
  refine leftSpine_induct (P := fun levels e => e.depthAsLeft = levels + 1) ?_ ?_
    (.binary left operator right)
  · intro e hbinary
    simp [depthAsLeft, hbinary]
  · intro levels left operator right hleft
    rw [depthAsLeft_binary, hleft, Nat.add_max_add_right]

end Expr

namespace Grammar

/-- The levels that the tree of a symbol takes at most, if parentheses nest within the given ones: a
chain takes one more than its operands, and an expression in parentheses is an operand again. -/
def Symbol.depthBound (levels : Nat) : Symbol → Nat
  | .factor => 2 * levels + 1
  | .chain additive | .links additive _ => 2 * levels + if additive then 3 else 2
  | .line => 2 * levels + 4

theorem Symbol.depthBound_chain (levels : Nat) (additive : Bool) :
    (Symbol.chain additive).depthBound levels = (operand additive).depthBound levels + 1 := by
  cases additive <;> rfl

/-- The tree of a symbol keeps to the bound; the links of a chain keep to it if what they go on with
does. -/
def Symbol.Keeps (bound : Nat) (tree : Expr) : Symbol → Prop
  | .links _ left => left.depthAsLeft ≤ bound → tree.depthAsLeft ≤ bound
  | _ => tree.depth ≤ bound

theorem Symbol.keeps_operand {bound : Nat} {tree : Expr} {additive : Bool} :
    (operand additive).Keeps bound tree ↔ tree.depth ≤ bound := by
  cases additive <;> rfl

/-- The tree of a stretch of tokens whose parentheses nest within some levels keeps to the bound of
its symbol. -/
theorem Derives.keeps {symbol : Symbol} {tokens : List Token} {tree : Expr}
    (h : Derives symbol tokens tree) {levels : Nat} (hnest : NestsWithin levels tokens) :
    symbol.Keeps (symbol.depthBound levels) tree := by
  induction h generalizing levels with
  | number hvalue position => simp [Symbol.Keeps, Symbol.depthBound, Expr.depth]
  | negated value sign position => simp [Symbol.Keeps, Symbol.depthBound, Expr.depth]
  | group hbody opening closing ih =>
    -- One level of parentheses makes up for the two of a sum of products.
    obtain ⟨inner, rfl, hinner⟩ := nestsWithin_lparen.1 hnest
    exact ih ((hbody.nestsWithin_append _ _).1 hinner).1
  | @chain additive tokens more first tree hfirst hrest ihFirst ihRest =>
    obtain ⟨hnestFirst, hnestRest⟩ := (hfirst.nestsWithin_append _ _).1 hnest
    have hoperand := Symbol.keeps_operand.1 (ihFirst hnestFirst)
    have hleft : first.depthAsLeft ≤ (Symbol.chain additive).depthBound levels := by
      rw [Symbol.depthBound_chain]
      exact Nat.le_trans first.depthAsLeft_le (Nat.succ_le_succ hoperand)
    exact Nat.le_trans tree.depth_le_depthAsLeft (ihRest hnestRest hleft)
  | done additive left => exact id
  | @link additive op tokens more left right tree position hop hright hrest ihRight ihRest =>
    obtain ⟨hnestRight, hnestRest⟩ := (hright.nestsWithin_append _ _).1 (nestsWithin_op.1 hnest)
    have hoperand := Symbol.keeps_operand.1 (ihRight hnestRight)
    intro hleft
    -- The tree so far stays on the spine, so only the new operand adds a level.
    have hright : right.depth + 1 ≤ (Symbol.chain additive).depthBound levels := by
      rw [Symbol.depthBound_chain]
      exact Nat.succ_le_succ hoperand
    exact ihRest hnestRest (Nat.max_le.2 ⟨hleft, hright⟩)
  | bare hexpr ih => exact Nat.le_succ_of_le (ih hnest)
  | print hexpr position ih => exact Nat.succ_le_succ (ih (nestsWithin_print.1 hnest))

end Grammar

/-- The tree of a text in which never more than `n` parentheses are open takes at most `2 * n + 4`
levels of a walk, so that with these every walk is plain recursion, whatever the number of operators
is. The levels of an operation are counted along its left spine. -/
theorem depth_le_of_parse {limit n : Nat} {text : String} {tree : Expr}
    (h : (parse limit text).result = .ok tree) (hnest : NestsWithin n (Feed.ofText text).tokens.1) :
    tree.depth ≤ 2 * n + 4 ∧
      (∀ levels, 2 * n + 4 ≤ levels → tree.evalWithin levels = tree.evalTree ∧
        tree.emitWithin levels = tree.emitTree ∧ tree.chartWithin levels = tree.chartTree) ∧
      ∀ left operator right, (Expr.binary left operator right).depth =
        (Expr.leftSpine (.binary left operator right)).links.foldl
          (fun levels link => max levels link.right.depth)
          (Expr.leftSpine (.binary left operator right)).base.depth + 1 := by
  obtain ⟨_, htokens, @⟨tokens, _, hline, position⟩⟩ :=
    Feed.program_of_parse (Feed.ofText_regular text) h
  rw [htokens] at hnest
  have hdepth : tree.depth ≤ 2 * n + 4 := hline.keeps hnest.of_append
  refine ⟨hdepth, fun levels hlevels => ?_, Expr.depth_eq_leftSpine⟩
  have hsuffices := Nat.le_trans hdepth hlevels
  exact ⟨Expr.evalWithin_eq_evalTree hsuffices, Expr.emitWithin_eq_emitTree hsuffices,
    Expr.chartWithin_eq_chartTree hsuffices⟩

/-- A print of a sum of products in which a sum of products stands in parentheses reaches the
bound. -/
theorem depth_le_of_parse_print :
    let text := "print 1+2*(3+4*5)"
    let product : Expr := .binary (.num ⟨4, 4, some ⟨1, 14⟩⟩) ⟨.mul, .text "*", some ⟨1, 15⟩⟩
      (.num ⟨5, 5, some ⟨1, 16⟩⟩)
    let sum : Expr := .binary (.num ⟨3, 3, some ⟨1, 12⟩⟩) ⟨.add, .text "+", some ⟨1, 13⟩⟩ product
    let tree : Expr := .print (some ⟨1, 1⟩) (.binary (.num ⟨1, 1, some ⟨1, 7⟩⟩)
      ⟨.add, .text "+", some ⟨1, 8⟩⟩ (.binary (.num ⟨2, 2, some ⟨1, 9⟩⟩)
        ⟨.mul, .text "*", some ⟨1, 10⟩⟩ sum))
    (parse 200 text).result = .ok tree ∧ NestsWithin 1 (Feed.ofText text).tokens.1 ∧
      tree.depth ≤ 2 * 1 + 4 ∧ tree.depth = 6 := by
  intro text product sum tree
  have hparse : (parse 200 text).result = .ok tree := by decide +kernel
  have htokens : (Feed.ofText text).tokens.1 = [⟨.print, ⟨1, 1⟩⟩, ⟨.integer 1, ⟨1, 7⟩⟩,
      ⟨.op .add, ⟨1, 8⟩⟩, ⟨.integer 2, ⟨1, 9⟩⟩, ⟨.op .mul, ⟨1, 10⟩⟩, ⟨.lparen, ⟨1, 11⟩⟩,
      ⟨.integer 3, ⟨1, 12⟩⟩, ⟨.op .add, ⟨1, 13⟩⟩, ⟨.integer 4, ⟨1, 14⟩⟩, ⟨.op .mul, ⟨1, 15⟩⟩,
      ⟨.integer 5, ⟨1, 16⟩⟩, ⟨.rparen, ⟨1, 17⟩⟩, ⟨.eof, ⟨1, 18⟩⟩] := by decide +kernel
  have hnest : NestsWithin 1 (Feed.ofText text).tokens.1 := by simp [htokens]
  exact ⟨hparse, hnest, (depth_le_of_parse hparse hnest).1, rfl⟩

end LineCalc
