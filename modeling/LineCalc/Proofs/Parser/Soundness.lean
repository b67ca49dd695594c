import LineCalc.Proofs.Parser.Symbols

/-!
# How a parser can end

From any parser that is adequate, the parser of a symbol eats some tokens and then ends in one of
four ways: these tokens make a tree and the next one does not go on with it; the next one is
rejected; the feed fails behind the next one, with which the stretch could have gone on; or the
levels run out, which they do only behind tokens that nest more deeply.

* `Parser.Ends`: the four ways.
* `Parser.ends_factor`, `Parser.ends_links`, `Parser.ends_chain`: one step down the grammar.
* `Parser.ends_line`: the parser of a line ends in one of the four ways.
* `Parser.programWithin_ends`: so does that of a whole line.
-/

namespace LineCalc.Parser

open Grammar

/-- How the parser of a symbol, with the given levels and from the given parser, can end. -/
inductive Ends (symbol : Symbol) (levels : Nat) (p : Parser) :
    Except (Failure ParseError) Expr × Parser → Prop
  | accepts {tokens : List Token} {tree : Expr} {q : Parser} (heats : Eats p tokens q)
      (hnest : NestsWithin levels tokens) (hderives : Derives symbol tokens tree)
      (hstop : ¬symbol.Extends q.current) :
    Ends symbol levels p (.ok tree, q)
  | rejects {tokens : List Token} {error : ParseError} {q : Parser} (heats : Eats p tokens q)
      (hnest : NestsWithin levels tokens) (hrejects : Rejects symbol tokens q.current error) :
    Ends symbol levels p (.error (.error error), q)
  | starves {tokens : List Token} {failure : Failure LexError} {q after : Parser}
      (heats : Eats p tokens q) (hcurrent : q.current.kind ≠ .eof)
      (hnext : q.advance = .error failure) (hbegins : Begins symbol (tokens ++ [q.current]))
      (hdrawn : after.drawn = q.drawn) (hnest : NestsWithin levels tokens) :
    Ends symbol levels p (.error (failure.map .lexical), after)
  | tooDeep {tokens : List Token} {q : Parser} (heats : Eats p tokens q)
      (hdeep : ¬NestsWithin levels tokens) :
    Ends symbol levels p (.error (.defect .tooDeep), q)

/-- A stretch `part` that is read from `m` is what a stretch `symbol` that is read from `p` goes on
with after the tokens `before`: what is wrong with it is wrong with the whole. -/
structure Continues (symbol : Symbol) (levels : Nat) (p : Parser) (before : List Token)
    (part : Symbol) (inner : Nat) (m : Parser) : Prop where
  eats : Eats p before m
  nest : ∀ tokens, NestsWithin levels (before ++ tokens) ↔ NestsWithin inner tokens
  begins : ∀ tokens, Begins part tokens → Begins symbol (before ++ tokens)
  rejects : ∀ tokens q error, Eats m tokens q → Rejects part tokens q.current error →
    Rejects symbol (before ++ tokens) q.current error

section Compose

variable {symbol part : Symbol} {levels inner : Nat} {p m : Parser} {before : List Token}

/-- If the parser of a part fails, that of the whole ends with the failure; otherwise it ends as it
goes on. -/
theorem Continues.ends {result final : Except (Failure ParseError) Expr × Parser}
    (hpart : Continues symbol levels p before part inner m) (h : Ends part inner m result)
    (haccepts : ∀ tokens tree q, Eats m tokens q → NestsWithin inner tokens →
      Derives part tokens tree → ¬part.Extends q.current → result = (.ok tree, q) →
      Ends symbol levels p final)
    (hfails : ∀ failure q, result = (.error failure, q) → final = result) :
    Ends symbol levels p final := by
  cases h with
  | accepts heats hnest hderives hstop => exact haccepts _ _ _ heats hnest hderives hstop rfl
  | rejects heats hnest hrejects =>
    rw [hfails _ _ rfl]
    exact .rejects (hpart.eats.append heats) ((hpart.nest _).2 hnest)
      (hpart.rejects _ _ _ heats hrejects)
  | starves heats hcurrent hnext hbegins hdrawn hnest =>
    rw [hfails _ _ rfl]
    refine .starves (hpart.eats.append heats) hcurrent hnext ?_ hdrawn ((hpart.nest _).2 hnest)
    rw [List.append_assoc]
    exact hpart.begins _ hbegins
  | tooDeep heats hdeep =>
    rw [hfails _ _ rfl]
    exact .tooDeep (hpart.eats.append heats) fun h => hdeep ((hpart.nest _).1 h)

/-- The parser of a part, followed by another step. -/
theorem Continues.bind {action : Parse Expr} {next : Expr → Parse Expr}
    (hpart : Continues symbol levels p before part inner m) (h : Ends part inner m (action m))
    (hnext : ∀ tokens tree q, Eats m tokens q → NestsWithin inner tokens →
      Derives part tokens tree → ¬part.Extends q.current → Ends symbol levels p (next tree q)) :
    Ends symbol levels p ((action >>= next) m) := by
  refine hpart.ends h (fun tokens tree q heats hnest hderives hstop hresult => ?_)
    fun failure q hresult => ?_
  · rw [bind_of_ok hresult]
    exact hnext tokens tree q heats hnest hderives hstop
  · rw [bind_of_error hresult, hresult]

/-- The parser of the last part. -/
theorem Continues.last {result : Except (Failure ParseError) Expr × Parser}
    (hpart : Continues symbol levels p before part inner m) (h : Ends part inner m result)
    (hderives : ∀ tokens tree, Derives part tokens tree → Derives symbol (before ++ tokens) tree)
    (hextends : ∀ found, symbol.Extends found → part.Extends found) :
    Ends symbol levels p result := by
  refine hpart.ends h (fun tokens tree q heats hnest hpartDerives hstop hresult => ?_)
    fun _ _ _ => rfl
  rw [hresult]
  exact .accepts (hpart.eats.append heats) ((hpart.nest _).2 hnest) (hderives _ _ hpartDerives)
    fun h => hstop (hextends _ h)

/-- Eating a token with which the stretch can go on, followed by another step. -/
theorem ends_eat {token : Token} {kind : Kind} {next : Unit → Parse Expr} (heats : Eats p before m)
    (hnest : NestsWithin levels before) (hcurrent : m.current = token) (hkind : token.kind = kind)
    (hne : kind ≠ .eof) (hbegins : Begins symbol (before ++ [token]))
    (hnext : ∀ q, Eats p (before ++ [token]) q → Ends symbol levels p (next () q)) :
    Ends symbol levels p ((eat kind >>= next) m) := by
  subst hcurrent
  cases hstep : m.advance with
  | error failure =>
    obtain ⟨after, heat, hdrawn⟩ := eat_of_error hkind hstep
    rw [bind_of_error heat]
    exact .starves heats (hkind ▸ hne) hstep hbegins hdrawn hnest
  | ok q =>
    rw [bind_of_ok (eat_of_ok hkind hstep)]
    exact hnext q (heats.snoc (hkind ▸ hne) hstep)

end Compose

/-! ### Factors -/

section Factor

variable {levels : Nat} {p : Parser}

/-- A token of a number's kind is a number. -/
theorem exists_integer {token : Token} (h : token.kind = .integer) :
    ∃ value position, token = ⟨.integer value, position⟩ := by
  obtain ⟨lexeme, position⟩ := token
  cases lexeme with
  | integer value => exact ⟨value, position, rfl⟩
  | op | lparen | rparen | print | eof => cases h

/-- All other kinds fix what is read. -/
theorem exists_position {token : Token} {lexeme : Lexeme} (h : token.kind = lexeme.kind)
    (hinteger : lexeme.kind ≠ .integer) : ∃ position, token = ⟨lexeme, position⟩ := by
  obtain ⟨other, position⟩ := token
  refine ⟨position, ?_⟩
  rw [Token.kind] at h
  cases other <;> cases lexeme <;> simp_all [Lexeme.kind]

/-- At a number: it may be too large. -/
theorem ends_number {value : Nat} {position : Position}
    (hcurrent : p.current = ⟨.integer value, position⟩) :
    Ends .factor levels p (factor (exprWithin levels) p) := by
  by_cases hvalue : (value : Int) ≤ Word.maxValue
  · rw [factor_number hcurrent hvalue]
    have hderives := Derives.number hvalue position
    refine ends_eat (.nil p) nestsWithin_nil hcurrent rfl (by simp) (.of_derives hderives)
      fun q heats => ?_
    exact .accepts heats (by simp) hderives id
  · have hlexeme : p.current.lexeme = .integer value := by rw [hcurrent]
    rw [factor_tooLarge hlexeme (Int.not_le.1 hvalue)]
    exact .rejects (.nil p) (by simp) (.tooLarge hlexeme (Int.not_le.1 hvalue))

/-- At a minus: only a number may follow. -/
theorem ends_negated {sign : Position} (hcurrent : p.current = ⟨.op .sub, sign⟩) :
    Ends .factor levels p (factor (exprWithin levels) p) := by
  rw [factor_minus hcurrent]
  refine ends_eat (.nil p) nestsWithin_nil hcurrent rfl (by simp) (.minus sign) fun q heats => ?_
  rw [get_bind]
  by_cases hnumber : q.current.kind = .integer
  · obtain ⟨value, position, hcurrent⟩ := exists_integer hnumber
    have hderives := Derives.negated value sign position
    refine ends_eat heats (by simp) hcurrent rfl (by simp) (.of_derives hderives)
      fun r heats => ?_
    rw [hcurrent]
    exact .accepts heats (by simp) hderives id
  · rw [bind_of_error (eat_of_ne hnumber)]
    exact .rejects heats (by simp) (.sign hnumber sign)

/-- At an opening parenthesis: an expression with one level less, and then a closing one. -/
theorem ends_group {opening : Position} (hcurrent : p.current = ⟨.lparen, opening⟩)
    (hinner : ∀ inner q, levels = inner + 1 → Eats p [⟨.lparen, opening⟩] q →
      Ends .expr inner q (exprWithin levels q)) :
    Ends .factor levels p (factor (exprWithin levels) p) := by
  rw [factor_group hcurrent]
  refine ends_eat (.nil p) nestsWithin_nil hcurrent rfl (by simp) (Begins.expr_nil.group opening)
    fun q heats => ?_
  cases levels with
  | zero => exact .tooDeep heats (by simp)
  | succ inner =>
    -- What is inside the parentheses is the rest of the factor, but for the closing one.
    have hpart : Continues .factor (inner + 1) p [⟨.lparen, opening⟩] .expr inner q :=
      { eats := heats
        nest := fun tokens => by simp
        begins := fun tokens hbegins => hbegins.group opening
        rejects := fun tokens r error _ hrejects => hrejects.group opening }
    refine hpart.bind (hinner inner q rfl heats) fun tokens tree r hbody hnest hderives hstop => ?_
    have heats := heats.append hbody
    by_cases hclosing : r.current.kind = .rparen
    · obtain ⟨closing, hcurrent⟩ : ∃ closing, r.current = ⟨.rparen, closing⟩ :=
        exists_position hclosing (by decide)
      have hgroup := hderives.group opening closing
      refine ends_eat heats ((hpart.nest _).2 hnest) hcurrent rfl (by simp) (.of_derives hgroup)
        fun u heats => ?_
      refine .accepts heats (nestsWithin_lparen.2 ⟨inner, rfl, ?_⟩) hgroup id
      exact (hderives.nestsWithin_append _ _).2 ⟨hnest, by simp⟩
    · rw [bind_of_error (eat_of_ne hclosing)]
      exact .rejects heats ((hpart.nest _).2 hnest) (.unclosed hderives hstop hclosing opening)

/-- The parser of a factor ends in one of the four ways, if that of an expression in parentheses
does. -/
theorem ends_factor (hp : p.Adequate)
    (hinner : ∀ inner q, levels = inner + 1 → q.Adequate →
      Ends .expr inner q (exprWithin levels q)) :
    Ends .factor levels p (factor (exprWithin levels) p) := by
  have hother (hinteger : p.current.kind ≠ .integer) (hminus : p.current.kind ≠ .op .sub)
      (hgroup : p.current.kind ≠ .lparen) :
      Ends .factor levels p (factor (exprWithin levels) p) := by
    rw [factor_other hinteger hminus hgroup]
    exact .rejects (.nil p) (by simp) (.start hinteger hminus hgroup)
  obtain ⟨lexeme, position, hcurrent⟩ : ∃ lexeme position, p.current = ⟨lexeme, position⟩ :=
    ⟨_, _, rfl⟩
  rw [hcurrent] at hother
  cases lexeme with
  | integer value => exact ends_number hcurrent
  | op o =>
    cases o with
    | sub => exact ends_negated hcurrent
    | add | mul | div => apply hother <;> simp [Token.kind, Lexeme.kind]
  | lparen =>
    exact ends_group hcurrent fun inner q hlevels heats =>
      hinner inner q hlevels (heats.adequate hp)
  | rparen | print | eof => apply hother <;> simp [Token.kind, Lexeme.kind]

end Factor

/-! ### Chains -/

section Chain

variable {levels count : Nat} {additive : Bool} {p : Parser} {left : Expr}

/-- A chain ends at a token that is no operator of it. -/
theorem ends_links_of_stop {operand : Parse Expr}
    (hstop : ¬(Symbol.operand additive).Extends p.current)
    (hlast : ∀ op, p.current.lexeme = .op op → op.isAdditive ≠ additive) :
    Ends (.links additive left) levels p
      (chain operand (·.isAdditive == additive) count left p) := by
  rw [chain_stop fun op hop => beq_false_of_ne (hlast op hop)]
  refine .accepts (.nil p) nestsWithin_nil (.done _ _) fun hextends => ?_
  rcases Symbol.extends_chain hextends with h | ⟨op, hop, hrank⟩
  · exact hstop h
  · exact hlast op hop hrank

/-- The links of a chain end in one of the four ways, if its operands do. The count is not what ends
them: as many links as tokens lie ahead are admitted. -/
theorem ends_links
    (hoperand : ∀ q, q.Adequate → Ends (.operand additive) levels q (operand levels additive q))
    (hp : p.Adequate) (hcount : p.ahead ≤ count)
    (hstop : ¬(Symbol.operand additive).Extends p.current) :
    Ends (.links additive left) levels p
      (chain (operand levels additive) (·.isAdditive == additive) count left p) := by
  -- The token after each operand does not go on with it; this carries the induction.
  induction count generalizing p left with
  | zero =>
    -- Nothing lies ahead, so the text ends here.
    refine ends_links_of_stop hstop fun op hop => ?_
    rw [ahead, Token.kind, hop] at hcount
    simp [Lexeme.kind] at hcount
  | succ count ih =>
    by_cases hlink : ∃ op position, p.current = ⟨.op op, position⟩ ∧ op.isAdditive = additive
    · obtain ⟨op, position, hcurrent, hop⟩ := hlink
      rw [chain_link hcurrent (by simp [hop])]
      refine ends_eat (.nil p) nestsWithin_nil hcurrent rfl (by simp)
        ((Begins.operand_nil additive).link_operand hop) fun q heats => ?_
      have hq := heats.adequate hp
      have hpart : Continues (.links additive left) levels p [⟨.op op, position⟩]
          (.operand additive) levels q :=
        { eats := heats
          nest := fun tokens => nestsWithin_op
          begins := fun tokens hbegins => hbegins.link_operand hop
          rejects := fun tokens r error _ hrejects => hrejects.linkOperand hop position }
      refine hpart.bind (hoperand q hq) fun tokens right r hright hnest hderives hrstop => ?_
      have hrest : Continues (.links additive left) levels p (⟨.op op, position⟩ :: tokens)
          (.links additive (.binary left ⟨op, .text op.symbol, some position⟩ right)) levels r :=
        { eats := heats.append hright
          nest := fun more =>
            nestsWithin_op.trans ((hderives.nestsWithin_append _ _).trans (and_iff_right hnest))
          begins := fun more hbegins => hbegins.link_rest hop hderives
          rejects := fun more u error _ hrejects => .linkRest hop hderives hrejects }
      -- The operator and the operand are eaten, so there is less ahead for the other links.
      have hless : q.ahead + 1 ≤ p.ahead := heats.ahead_add_length_le hp.regular
      have hrightLess := hright.ahead_add_length_le hq.regular
      refine hrest.last (ih (hright.adequate hq) ?_ hrstop)
        (fun more tree hmore => .link hop hderives hmore) fun _ h => h
      omega
    · refine ends_links_of_stop hstop fun op hop hrank => hlink ⟨op, p.current.position, ?_, hrank⟩
      rw [← hop]

/-- The parser of a chain ends in one of the four ways, if that of its operands does. -/
theorem ends_chain
    (hoperand : ∀ q, q.Adequate → Ends (.operand additive) levels q (operand levels additive q))
    (hp : p.Adequate) :
    Ends (.chain additive) levels p ((Symbol.chain additive).parse levels count p) := by
  rw [parse_chain]
  have hpart : Continues (.chain additive) levels p [] (.operand additive) levels p :=
    { eats := .nil p
      nest := fun tokens => Iff.rfl
      begins := fun tokens hbegins => hbegins.chain_first
      rejects := fun tokens q error _ hrejects => .first hrejects }
  refine hpart.bind (hoperand p hp) fun tokens first q heats hnest hderives hstop => ?_
  have hrest : Continues (.chain additive) levels p tokens (.links additive first) levels q :=
    { eats := heats
      nest := fun more => (hderives.nestsWithin_append _ _).trans (and_iff_right hnest)
      begins := fun more hbegins => hbegins.chain_rest hderives
      rejects := fun more r error _ hrejects => .rest hderives hrejects }
  have hq := heats.adequate hp
  rw [get_bind]
  exact hrest.last (ends_links hoperand hq hq.ahead_le hstop)
    (fun more tree hmore => .chain hderives hmore) fun _ h => h

end Chain

/-! ### Lines -/

/-- The parser of an expression ends in one of the four ways. -/
theorem ends_expr {p : Parser} (levels : Nat) (hp : p.Adequate) :
    Ends .expr levels p (exprWithin (levels + 1) p) := by
  induction levels using Nat.strongRecOn generalizing p with
  | ind levels ih =>
    -- The expressions in parentheses have one level less.
    have hfactor (q : Parser) (hq : q.Adequate) :
        Ends .factor levels q (operand levels false q) := by
      refine ends_factor hq fun inner r hlevels hr => ?_
      subst hlevels
      exact ih inner (Nat.lt_succ_self inner) hr
    have hterm (q : Parser) (hq : q.Adequate) :
        Ends .term levels q (Symbol.term.parse levels 0 q) := ends_chain hfactor hq
    have hexpr : Ends .expr levels p (Symbol.expr.parse levels 0 p) := ends_chain hterm hp
    exact hexpr

/-- The parser of a line ends in one of the four ways. -/
theorem ends_line {p : Parser} (levels : Nat) (hp : p.Adequate) :
    Ends .line levels p (line levels p) := by
  by_cases hprint : p.current.kind = .print
  · obtain ⟨position, hcurrent⟩ : ∃ position, p.current = ⟨.print, position⟩ :=
      exists_position hprint (by decide)
    rw [line_print hcurrent]
    refine ends_eat (.nil p) nestsWithin_nil hcurrent rfl (by simp) (Begins.expr_nil.print position)
      fun q heats => ?_
    have hpart : Continues .line levels p [⟨.print, position⟩] .expr levels q :=
      { eats := heats
        nest := fun tokens => nestsWithin_print
        begins := fun tokens hbegins => hbegins.print position
        rejects := fun tokens r error _ hrejects => hrejects.print position }
    refine hpart.bind (ends_expr levels (heats.adequate hp))
      fun tokens tree r hexpr hnest hderives hstop => ?_
    exact .accepts (heats.append hexpr) ((hpart.nest _).2 hnest) (hderives.print position)
      fun h => hstop (Symbol.extends_line_iff.1 h)
  · rw [line_bare hprint]
    have hpart : Continues .line levels p [] .expr levels p :=
      { eats := .nil p
        nest := fun tokens => Iff.rfl
        begins := fun tokens hbegins => hbegins.bare
        rejects := fun tokens q error heats hrejects => by
          refine .bare hrejects ?_
          rintro rfl
          rwa [heats.nil_inv] }
    exact hpart.last (ends_expr levels hp) (fun tokens tree hderives => .bare hderives)
      fun found h => Symbol.extends_line_iff.1 h

/-- How the parser of a whole line can end. -/
inductive ProgramEnds (levels : Nat) (p : Parser) :
    Except (Failure ParseError) Expr × Parser → Prop
  | accepts {tokens : List Token} {tree : Expr} {q : Parser} (heats : Eats p tokens q)
      (heof : q.current.kind = .eof) (hline : Derives .line tokens tree)
      (hnest : NestsWithin levels tokens) :
    ProgramEnds levels p (.ok tree, q)
  | rejects {tokens : List Token} {error : ParseError} {q : Parser} (heats : Eats p tokens q)
      (hnest : NestsWithin levels tokens) (hrejects : ProgramRejects tokens q.current error) :
    ProgramEnds levels p (.error (.error error), q)
  | starves {tokens : List Token} {failure : Failure LexError} {q after : Parser}
      (heats : Eats p tokens q) (hcurrent : q.current.kind ≠ .eof)
      (hnext : q.advance = .error failure) (hviable : Viable (tokens ++ [q.current]))
      (hdrawn : after.drawn = q.drawn) (hnest : NestsWithin levels tokens) :
    ProgramEnds levels p (.error (failure.map .lexical), after)
  | tooDeep {tokens : List Token} {q : Parser} (heats : Eats p tokens q)
      (hdeep : ¬NestsWithin levels tokens) :
    ProgramEnds levels p (.error (.defect .tooDeep), q)

/-- The parser of a whole line ends in one of these ways. -/
theorem programWithin_ends {p : Parser} (levels : Nat) (hp : p.Adequate) :
    ProgramEnds levels p (programWithin levels p) := by
  have hline := ends_line levels hp
  generalize hresult : line levels p = result at hline
  cases hline with
  | accepts heats hnest hderives hstop =>
    rename_i q
    rw [programWithin, bind_of_ok hresult, get_bind]
    by_cases heof : q.current.kind = .eof
    · rw [if_pos heof]
      exact .accepts heats heof hderives hnest
    · rw [if_neg heof]
      exact .rejects heats hnest (.trailing hderives hstop heof)
  | rejects heats hnest hrejects =>
    rw [programWithin, bind_of_error hresult]
    exact .rejects heats hnest (.line hrejects)
  | starves heats hcurrent hnext hbegins hdrawn hnest =>
    rw [programWithin, bind_of_error hresult]
    exact .starves heats hcurrent hnext hbegins.viable hdrawn hnest
  | tooDeep heats hdeep =>
    rw [programWithin, bind_of_error hresult]
    exact .tooDeep heats hdeep

end LineCalc.Parser
