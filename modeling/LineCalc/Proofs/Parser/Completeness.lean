import LineCalc.Proofs.Parser.Symbols

/-!
# The parser follows the grammar

What the parser of a symbol does is fixed by the tokens that it eats and the one after them: if they
make a tree that does not go on, it gives that tree; if the one after them is rejected, it fails
there and says why. The parentheses have to keep to the levels that the parser has.

* `Parser.parse_of_derives`: what the grammar derives is parsed.
* `Parser.parse_of_rejects`: what the grammar rejects is reported.
* `Grammar.Program.unique`: the tokens of a whole line have one tree.
* `Grammar.ProgramRejects.not_viable`: no whole line goes on with a token that is rejected.
-/

namespace LineCalc

namespace Parser

open Grammar

variable {levels count : Nat} {p q : Parser} {tokens more : List Token}

/-- A parser that goes on with an operator of a chain is past its operand. -/
theorem not_extends_of_op {additive : Bool} {op : BinaryOp} {position : Position}
    (hop : op.isAdditive = additive) (heats : Eats p (⟨.op op, position⟩ :: more) q) :
    ¬(Symbol.operand additive).Extends p.current := by
  rw [heats.current_eq]
  exact Symbol.not_extends_operand hop position

/-- A parser that goes on with the links of a chain is past its operand. -/
theorem not_extends_of_links {additive : Bool} {left tree : Expr}
    (h : Derives (.links additive left) more tree) (heats : Eats p more q)
    (hstop : ¬(Symbol.chain additive).Extends q.current) :
    ¬(Symbol.operand additive).Extends p.current := by
  rcases h.links_cases with rfl | ⟨op, position, rest, hop, rfl⟩
  · rw [← heats.nil_inv]
    exact fun h => hstop (Symbol.extends_of_operand h)
  · exact not_extends_of_op hop heats

/-- No expression starts with `print`. -/
theorem exprWithin_of_print (h : p.current.kind = .print) :
    exprWithin (levels + 1) p = (.error (.error (.unexpectedToken p.current .integer)), p) := by
  have hfactor : factor (exprWithin levels) p =
      (.error (.error (.unexpectedToken p.current .integer)), p) := by
    apply factor_other <;> simp [h]
  have hterm : term (exprWithin levels) p =
      (.error (.error (.unexpectedToken p.current .integer)), p) := bind_of_error hfactor
  exact bind_of_error hterm

/-- What the grammar derives is parsed, if the token after it does not go on with it. -/
theorem parse_of_derives {symbol : Symbol} {tree : Expr} (h : Derives symbol tokens tree)
    (hnest : NestsWithin levels tokens) (hp : p.Adequate) (hcount : p.ahead ≤ count)
    (heats : Eats p tokens q) (hstop : ¬symbol.Extends q.current) :
    symbol.parse levels count p = (.ok tree, q) := by
  induction h generalizing levels count p q with
  | number hvalue position =>
    obtain ⟨next, hcurrent, -, -, hrest, heat⟩ := heats.uncons hp
    obtain rfl := hrest.nil_inv
    rw [Symbol.parse, factor_number hcurrent hvalue, heat .integer rfl]
    rfl
  | negated value sign position =>
    obtain ⟨next, hcurrent, hnext, -, hrest, heatSign⟩ := heats.uncons hp
    obtain ⟨last, hnumber, -, -, hrest, heatNumber⟩ := hrest.uncons hnext
    obtain rfl := hrest.nil_inv
    rw [Symbol.parse, factor_minus hcurrent, heatSign (.op .sub) rfl, get_bind,
      heatNumber .integer rfl, hnumber]
    rfl
  | @group tokens body hbody opening closing ih =>
    obtain ⟨next, hcurrent, hnext, -, hrest, heatOpening⟩ := heats.uncons hp
    obtain ⟨middle, hinside, hafter⟩ := hrest.split
    obtain ⟨last, hclosing, -, -, hrest, heatClosing⟩ := hafter.uncons (hinside.adequate hnext)
    obtain rfl := hrest.nil_inv
    obtain ⟨inner, rfl, hinner⟩ := nestsWithin_lparen.1 hnest
    have hbodyStop : ¬Symbol.expr.Extends middle.current := by
      rw [hclosing]
      rintro ⟨op, hop, -⟩
      cases hop
    have hbodyParse : exprWithin (inner + 1) next = (.ok body, middle) :=
      ih ((hbody.nestsWithin_append _ _).1 hinner).1 hnext (Nat.le_refl _) hinside hbodyStop
    rw [Symbol.parse, factor_group hcurrent, heatOpening .lparen rfl, bind_of_ok hbodyParse,
      heatClosing .rparen rfl]
    rfl
  | @chain additive tokens more first tree hfirst hrest ihFirst ihRest =>
    obtain ⟨middle, hbefore, hafter⟩ := heats.split
    obtain ⟨hnestFirst, hnestRest⟩ := (hfirst.nestsWithin_append _ _).1 hnest
    have hmiddle := hbefore.adequate hp
    -- What comes after the first operand does not go on with it, or it would belong to it.
    have hfirstParse :=
      ihFirst hnestFirst hp hcount hbefore (not_extends_of_links hrest hafter hstop)
    rw [parse_operand] at hfirstParse
    rw [parse_chain, bind_of_ok hfirstParse, get_bind]
    exact ihRest hnestRest hmiddle hmiddle.ahead_le hafter hstop
  | done additive left =>
    obtain rfl := heats.nil_inv
    refine chain_stop fun op hop => beq_false_of_ne fun hrank => ?_
    exact hstop ⟨op, hop, fun h => hrank ▸ h⟩
  | @link additive op tokens more left right tree position hop hright hrest ihRight ihRest =>
    obtain ⟨next, hcurrent, hnext, hlt, heats, heat⟩ := heats.uncons hp
    obtain ⟨middle, hbefore, hafter⟩ := heats.split
    obtain ⟨hnestRight, hnestRest⟩ := (hright.nestsWithin_append _ _).1 (nestsWithin_op.1 hnest)
    -- The operator is one of the tokens ahead, so the count admits another link.
    have hle := hbefore.ahead_add_length_le hnext.regular
    obtain ⟨count, rfl⟩ := Nat.exists_eq_add_of_le' (show 1 ≤ count by omega)
    have hrightParse := ihRight hnestRight hnext (Nat.le_refl _) hbefore
      (not_extends_of_links hrest hafter hstop)
    rw [parse_operand] at hrightParse
    rw [Symbol.parse, chain_link hcurrent (by simp [hop]), heat (.op op) rfl,
      bind_of_ok hrightParse]
    exact ihRest hnestRest (hbefore.adequate hnext) (by omega) hafter hstop
  | bare hexpr ih =>
    have hexprParse : exprWithin (levels + 1) p = _ := ih hnest hp (Nat.le_refl _) heats
      fun h => hstop (Symbol.extends_line_iff.2 h)
    rw [Symbol.parse, line_bare, hexprParse]
    -- The parser of the expression succeeds, so it does not start at `print`.
    intro hprint
    rw [exprWithin_of_print hprint] at hexprParse
    cases hexprParse
  | print hexpr position ih =>
    obtain ⟨next, hcurrent, hnext, -, heats, heat⟩ := heats.uncons hp
    have hexprParse : exprWithin (levels + 1) next = _ := ih (nestsWithin_print.1 hnest) hnext
      (Nat.le_refl _) heats fun h => hstop (Symbol.extends_line_iff.2 h)
    rw [Symbol.parse, line_print hcurrent, heat .print rfl, bind_of_ok hexprParse]
    rfl

/-- What the grammar rejects is reported, at the token that is rejected. -/
theorem parse_of_rejects {symbol : Symbol} {found : Token} {error : ParseError}
    (h : Rejects symbol tokens found error) (hnest : NestsWithin levels tokens) (hp : p.Adequate)
    (hcount : p.ahead ≤ count) (heats : Eats p tokens q) (hfound : q.current = found) :
    symbol.parse levels count p = (.error (.error error), q) := by
  induction h generalizing levels count p q with
  | tooLarge hlexeme hvalue =>
    obtain rfl := heats.nil_inv
    subst hfound
    exact factor_tooLarge hlexeme hvalue
  | start hinteger hminus hgroup =>
    obtain rfl := heats.nil_inv
    subst hfound
    exact factor_other hinteger hminus hgroup
  | sign hinteger sign =>
    obtain ⟨next, hcurrent, -, -, hrest, heat⟩ := heats.uncons hp
    obtain rfl := hrest.nil_inv
    subst hfound
    rw [Symbol.parse, factor_minus hcurrent, heat (.op .sub) rfl, get_bind,
      bind_of_error (eat_of_ne hinteger)]
  | group hbody opening ih =>
    obtain ⟨next, hcurrent, hnext, -, heats, heat⟩ := heats.uncons hp
    obtain ⟨inner, rfl, hinner⟩ := nestsWithin_lparen.1 hnest
    have hbodyParse : exprWithin (inner + 1) next = _ :=
      ih hinner hnext (Nat.le_refl _) heats hfound
    rw [Symbol.parse, factor_group hcurrent, heat .lparen rfl, bind_of_error hbodyParse]
  | unclosed hbody hstop hclosing opening =>
    obtain ⟨next, hcurrent, hnext, -, heats, heat⟩ := heats.uncons hp
    obtain ⟨inner, rfl, hinner⟩ := nestsWithin_lparen.1 hnest
    subst hfound
    have hbodyParse : exprWithin (inner + 1) next = _ :=
      parse_of_derives hbody hinner hnext (Nat.le_refl _) heats hstop
    rw [Symbol.parse, factor_group hcurrent, heat .lparen rfl, bind_of_ok hbodyParse,
      bind_of_error (eat_of_ne hclosing)]
  | @first additive tokens found error hfirst ih =>
    have hfirstParse := ih hnest hp hcount heats hfound
    rw [parse_operand] at hfirstParse
    rw [parse_chain, bind_of_error hfirstParse]
  | @rest additive tokens more first found error hfirst hrest ih =>
    obtain ⟨middle, hbefore, hafter⟩ := heats.split
    obtain ⟨hnestFirst, hnestRest⟩ := (hfirst.nestsWithin_append _ _).1 hnest
    have hmiddle := hbefore.adequate hp
    -- A link that fails has an operator at least, which ends the operand before it.
    obtain ⟨op, position, _, hop, rfl⟩ := hrest.links_cases
    have hfirstParse :=
      parse_of_derives hfirst hnestFirst hp hcount hbefore (not_extends_of_op hop hafter)
    rw [parse_operand] at hfirstParse
    rw [parse_chain, bind_of_ok hfirstParse, get_bind]
    exact ih hnestRest hmiddle hmiddle.ahead_le hafter hfound
  | @linkOperand additive op tokens left found error hop hright position ih =>
    obtain ⟨next, hcurrent, hnext, hlt, heats, heat⟩ := heats.uncons hp
    obtain ⟨count, rfl⟩ := Nat.exists_eq_add_of_le' (show 1 ≤ count by omega)
    have hrightParse := ih (nestsWithin_op.1 hnest) hnext (Nat.le_refl _) heats hfound
    rw [parse_operand] at hrightParse
    rw [Symbol.parse, chain_link hcurrent (by simp [hop]), heat (.op op) rfl,
      bind_of_error hrightParse]
  | @linkRest additive op tokens more left right position found error hop hright hrest ih =>
    obtain ⟨next, hcurrent, hnext, hlt, heats, heat⟩ := heats.uncons hp
    obtain ⟨middle, hbefore, hafter⟩ := heats.split
    obtain ⟨hnestRight, hnestRest⟩ := (hright.nestsWithin_append _ _).1 (nestsWithin_op.1 hnest)
    have hle := hbefore.ahead_add_length_le hnext.regular
    obtain ⟨count, rfl⟩ := Nat.exists_eq_add_of_le' (show 1 ≤ count by omega)
    obtain ⟨_, _, _, hnextOp, rfl⟩ := hrest.links_cases
    have hrightParse := parse_of_derives hright hnestRight hnext (Nat.le_refl _) hbefore
      (not_extends_of_op hnextOp hafter)
    rw [parse_operand] at hrightParse
    rw [Symbol.parse, chain_link hcurrent (by simp [hop]), heat (.op op) rfl,
      bind_of_ok hrightParse]
    exact ih hnestRest (hbefore.adequate hnext) (by omega) hafter hfound
  | bare hexpr hprint ih =>
    have hexprParse : exprWithin (levels + 1) p = _ := ih hnest hp (Nat.le_refl _) heats hfound
    rw [Symbol.parse, line_bare, hexprParse]
    intro hkind
    -- Otherwise `print` itself is the token that no expression starts with.
    rw [exprWithin_of_print hkind] at hexprParse
    obtain rfl := (Prod.mk.inj hexprParse).2
    have hlength := heats.ahead_add_length_le hp.regular
    exact hprint (List.eq_nil_of_length_eq_zero (by omega)) (hfound ▸ hkind)
  | print hexpr position ih =>
    obtain ⟨next, hcurrent, hnext, -, heats, heat⟩ := heats.uncons hp
    have hexprParse : exprWithin (levels + 1) next = _ :=
      ih (nestsWithin_print.1 hnest) hnext (Nat.le_refl _) heats hfound
    rw [Symbol.parse, line_print hcurrent, heat .print rfl, bind_of_error hexprParse]

/-! ### Whole lines -/

/-- A whole line is parsed, if it is what lies ahead. -/
theorem programWithin_of_program {tree : Expr} (h : Program tokens tree) (hp : p.Adequate)
    (hahead : p.tokens.1 = tokens) (hnest : NestsWithin levels tokens) :
    (programWithin levels p).1 = .ok tree := by
  obtain ⟨hline, position⟩ := h
  obtain ⟨q, heats, hq⟩ := exists_eats hp.regular hahead
  have hstop : ¬Symbol.line.Extends q.current := by
    rw [hq]
    rintro ⟨op, hop⟩
    cases hop
  have hlineParse : line levels p = _ := parse_of_derives hline
    ((hline.nestsWithin_append _ _).1 hnest).1 hp (Nat.le_refl _) heats hstop
  have heof : q.current.kind = .eof := by rw [hq]; rfl
  rw [programWithin, bind_of_ok hlineParse, get_bind, if_pos heof]
  rfl

/-- What is rejected in a line is reported, whatever follows it. -/
theorem programWithin_of_rejects {found : Token} {error : ParseError}
    (h : ProgramRejects tokens found error) (hp : p.Adequate)
    (hahead : p.tokens.1 = tokens ++ found :: more) (hnest : NestsWithin levels tokens) :
    ∃ q, Eats p tokens q ∧ q.current = found ∧
      programWithin levels p = (.error (.error error), q) := by
  obtain ⟨q, heats, rfl⟩ := exists_eats hp.regular hahead
  refine ⟨q, heats, rfl, ?_⟩
  cases h with
  | line h =>
    have hline : line levels p = _ := parse_of_rejects h hnest hp (Nat.le_refl _) heats rfl
    rw [programWithin, bind_of_error hline]
  | trailing h hstop heof =>
    have hline : line levels p = _ := parse_of_derives h hnest hp (Nat.le_refl _) heats hstop
    rw [programWithin, bind_of_ok hline, get_bind, if_neg heof]
    rfl

end Parser

/-! ### One reading only

The parser is a function, and on the tokens of any line there is a parser to be asked. So whatever
two facts of the grammar make it do is the same. -/

namespace Grammar

open LineCalc.Parser

variable {tokens : List Token}

/-- The tokens of a whole line lie ahead of some parser. -/
theorem Program.exists_adequate {tree : Expr} (h : Program tokens tree) :
    ∃ p : Parser, p.Adequate ∧ p.tokens.1 = tokens := by
  obtain @⟨line, _, hline, position⟩ := h
  let feed : Feed := ⟨line.map .ok, .ok ⟨.eof, position⟩⟩
  have hregular : feed.Regular := by
    refine ⟨fun token hmem => ?_, fun token htoken => ?_⟩
    · obtain ⟨other, hother, heq⟩ := List.mem_map.1 hmem
      cases heq
      exact hline.kind_ne_eof token hother
    · cases htoken
      rfl
  have hfeed : feed.tokens.1 = line ++ [⟨.eof, position⟩] := by
    have hleading (rest : List Token) (seen : List Token) :
        (leadingTokens (rest.map .ok ++ [.ok ⟨.eof, position⟩]) seen).1 =
          seen.reverse ++ (rest ++ [⟨.eof, position⟩]) := by
      induction rest generalizing seen with
      | nil => simp [leadingTokens]
      | cons token rest ih => simpa [leadingTokens] using ih (token :: seen)
    exact hleading line []
  cases hstart : Parser.start feed with
  | error failure =>
    obtain ⟨cause, -, hempty⟩ := start_error hstart
    simp [hempty] at hfeed
  | ok p =>
    obtain ⟨hp, hahead, -⟩ := start_ok hregular hstart
    exact ⟨p, hp, hahead ▸ hfeed⟩

/-- The tokens of a whole line have one tree. -/
theorem Program.unique {tree other : Expr} (h : Program tokens tree)
    (hother : Program tokens other) : tree = other := by
  obtain ⟨p, hp, hahead⟩ := h.exists_adequate
  have hnest := nestsWithin_length tokens
  have hparse := programWithin_of_program h hp hahead hnest
  rw [programWithin_of_program hother hp hahead hnest] at hparse
  cases hparse
  rfl

/-- No whole line goes on with a token that is rejected. -/
theorem ProgramRejects.not_viable {found : Token} {error : ParseError}
    (h : ProgramRejects tokens found error) : ¬Viable (tokens ++ [found]) := by
  rintro ⟨continuation, tree, hprogram⟩
  -- The line may nest more deeply than any text that is parsed, hence the free number of levels.
  obtain ⟨p, hp, hahead⟩ := hprogram.exists_adequate
  have hnest := nestsWithin_length (tokens ++ [found] ++ continuation)
  have hparse := programWithin_of_program hprogram hp hahead hnest
  rw [List.append_assoc] at hahead hnest
  obtain ⟨q, -, -, hreject⟩ := programWithin_of_rejects h hp hahead hnest.of_append
  rw [List.append_assoc, hreject] at hparse
  cases hparse

/-- A token is rejected as trailing exactly if the line could have ended before it. -/
theorem ProgramRejects.trailingInput_iff {found : Token} {error : ParseError}
    (h : ProgramRejects tokens found error) (position : Position) :
    error.code = .trailingInput ↔ ∃ tree, Program (tokens ++ [⟨.eof, position⟩]) tree := by
  cases h with
  | line hline =>
    refine iff_of_false hline.found_eq.2 ?_
    -- What is rejected inside the line is no end of it, so the end of the text is rejected too.
    rintro ⟨tree, hprogram⟩
    obtain ⟨other, heof⟩ := hline.exists_eof position
    exact (ProgramRejects.line heof).not_viable ⟨[], tree, by rwa [List.append_nil]⟩
  | trailing hline hstop heof => exact iff_of_true rfl ⟨_, .intro hline position⟩

end Grammar

end LineCalc
