import LineCalc.Proofs.Parsing
import LineCalc.Proofs.Relabeling

/-!
# Parsing at other places

The places of the tokens in a feed can be changed by any function. The parser hands places on to its
trees and errors and does not look at them otherwise, so it commutes with such a change.

* `Parsed.relocate`: what was parsed, with its places changed.
* `Parser.Relocates`: a parsing step does the same at other places.
* `Parser.Relocates.bind`: so does a sequence of such steps.
* `Feed.parse_relocate`: and so does parsing as a whole.
-/

namespace LineCalc

variable (f : Position → Position)

/-! ### Changed places -/

/-- The token at another place. -/
def Token.relocate (t : Token) : Token := ⟨t.lexeme, f t.position⟩

/-- The lexical error at another place. -/
def LexError.relocate (e : LexError) : LexError := ⟨e.cause, f e.position⟩

/-- The result of a reading, at another place. -/
def Outcome.relocate : Outcome → Outcome
  | .ok token => .ok (token.relocate f)
  | .error failure => .error (failure.map (·.relocate f))

/-- The feed with its places changed. -/
def Feed.relocate (feed : Feed) : Feed :=
  ⟨feed.pending.map (Outcome.relocate f), Outcome.relocate f feed.final⟩

/-- The syntax error with its places changed. -/
def ParseError.relocate : ParseError → ParseError
  | .unexpectedToken found expected => .unexpectedToken (found.relocate f) expected
  | .trailingInput found => .trailingInput (found.relocate f)
  | .numberTooLarge found => .numberTooLarge (found.relocate f)
  | .lexical e => .lexical (e.relocate f)
  | .tooDeep => .tooDeep

namespace Relabeling

/-- Nodes are replaced by the same ones at other places. -/
def relocation : Relabeling where
  literal literal := { literal with position := literal.position.map f }
  operator operator := { operator with position := operator.position.map f }
  place position := position.map f

theorem relocation_keepsMeaning : (relocation f).KeepsMeaning := ⟨fun _ => rfl, fun _ => rfl⟩

theorem relocation_keepsNames : (relocation f).KeepsNames := ⟨fun _ => rfl, fun _ => rfl⟩

end Relabeling

/-- The tree with its places changed. -/
def Expr.relocate (e : Expr) : Expr := e.relabel (.relocation f)

/-- What was parsed, with its places changed. -/
def Parsed.relocate (p : Parsed) : Parsed where
  tokens := p.tokens.map (Token.relocate f)
  result := (p.result.map (Expr.relocate f)).mapError (·.map (ParseError.relocate f))

/-- A changed feed gives the outcomes of the feed at other places. -/
theorem Feed.next_relocate (feed : Feed) :
    (feed.relocate f).next = (Outcome.relocate f feed.next.1, feed.next.2.relocate f) := by
  obtain ⟨pending, final⟩ := feed
  cases pending <;> rfl

/-- A failure to read a token is handed on with its place. -/
theorem LexError.map_lexical_relocate (failure : Failure LexError) :
    (failure.map (relocate f)).map .lexical =
      (failure.map .lexical).map (ParseError.relocate f) := by
  cases failure <;> rfl

/-- Too deep a nesting has no place that could change. -/
theorem ParseError.ofFailure_relocate (failure : Failure ParseError) :
    ofFailure (failure.map (relocate f)) = (ofFailure failure).map (relocate f) := by
  cases failure with
  | error e => rfl
  | defect d => cases d <;> rfl

namespace Parser

/-- The parser with its places changed. -/
def relocate (p : Parser) : Parser where
  current := p.current.relocate f
  feed := p.feed.relocate f
  drawn := p.drawn.map (Token.relocate f)
  size := p.size

/-! ### Steps of a parser -/

/-- The second step does at changed places what the first one does. What it gives is changed by
`g`. -/
def Relocates {α : Type} (g : α → α) (m m' : Parse α) : Prop :=
  ∀ p, m' (p.relocate f) =
    (((m p).1.map g).mapError (·.map (ParseError.relocate f)), (m p).2.relocate f)

variable {f}

namespace Relocates

variable {α β : Type} {g : α → α} {h : β → β}

theorem pure (a : α) : Relocates f g (pure a) (pure (g a)) := fun _ => rfl

theorem throw (failure : Failure ParseError) :
    Relocates f g (throw failure) (throw (failure.map (ParseError.relocate f))) := fun _ => rfl

theorem get : Relocates f (Parser.relocate f) get get := fun _ => rfl

/-- A sequence does the same at other places if both of its parts do. -/
theorem bind {m m' : Parse α} {k k' : α → Parse β} (hm : Relocates f g m m')
    (hk : ∀ a, Relocates f h (k a) (k' (g a))) : Relocates f h (m >>= k) (m' >>= k') := by
  intro p
  have hfirst := hm p
  cases hresult : m p with
  | mk result after =>
    rw [hresult] at hfirst
    cases result with
    | error failure => rw [bind_of_error hresult, bind_of_error hfirst]; rfl
    | ok a => rw [bind_of_ok hresult, bind_of_ok hfirst]; exact hk a after

/-- A choice does the same at other places if both branches do and the places do not decide it. -/
theorem ite {a b : Prop} [Decidable a] [Decidable b] {m m' n n' : Parse α} (hiff : a ↔ b)
    (hm : Relocates f g m m') (hn : Relocates f g n n') :
    Relocates f g (if a then m else n) (if b then m' else n') := by
  by_cases ha : a
  · rwa [if_pos ha, if_pos (hiff.1 ha)]
  · rwa [if_neg ha, if_neg (mt hiff.2 ha)]

end Relocates

theorem draw_relocates : Relocates f (Token.relocate f) draw draw := by
  intro p
  have hnext : (p.relocate f).feed.next = _ := Feed.next_relocate f p.feed
  cases hresult : p.feed.next with
  | mk outcome rest =>
    rw [hresult] at hnext
    cases outcome with
    | ok token =>
      simp only [draw, hresult, hnext, Outcome.relocate]
      rfl
    | error failure =>
      simp only [draw, hresult, hnext, Outcome.relocate, LexError.map_lexical_relocate]
      rfl

theorem eat_relocates (kind : Kind) : Relocates f id (eat kind) (eat kind) :=
  .bind .get fun _ => .ite Iff.rfl (.bind draw_relocates fun _ _ => rfl) (.throw _)

section Symbols

variable {inner : Parse Expr}

theorem chain_relocates {operand : Parse Expr} {joins : BinaryOp → Bool}
    (hoperand : Relocates f (Expr.relocate f) operand operand) (count : Nat) (left : Expr) :
    Relocates f (Expr.relocate f) (chain operand joins count left)
      (chain operand joins count (left.relocate f)) := by
  induction count generalizing left with
  | zero => exact .pure left
  | succ count ih =>
    refine .bind .get fun p => ?_
    -- The lexeme decides what comes next, and it is the same at another place.
    have hlexeme : (p.relocate f).current.lexeme = p.current.lexeme := rfl
    dsimp only
    rw [hlexeme]
    cases p.current.lexeme with
    | op o =>
      refine .ite Iff.rfl ?_ (.pure left)
      exact .bind (eat_relocates _) fun _ => .bind hoperand fun _ => ih _
    | integer | lparen | rparen | print | eof => exact .pure left

theorem factor_relocates (hinner : Relocates f (Expr.relocate f) inner inner) :
    Relocates f (Expr.relocate f) (factor inner) (factor inner) := by
  refine .bind .get fun p => ?_
  have hlexeme : (p.relocate f).current.lexeme = p.current.lexeme := rfl
  dsimp only
  rw [hlexeme]
  cases p.current.lexeme with
  | integer value =>
    exact .ite Iff.rfl (.throw _) (.bind (eat_relocates _) fun _ => .pure _)
  | op o =>
    cases o with
    | sub =>
      exact .bind (eat_relocates _) fun _ => .bind .get fun _ =>
        .bind (eat_relocates _) fun _ => .pure _
    | add | mul | div => exact .throw _
  | lparen =>
    exact .bind (eat_relocates _) fun _ => .bind hinner fun body =>
      .bind (eat_relocates _) fun _ => .pure body
  | rparen | print | eof => exact .throw _

theorem term_relocates (hinner : Relocates f (Expr.relocate f) inner inner) :
    Relocates f (Expr.relocate f) (term inner) (term inner) :=
  .bind (factor_relocates hinner) fun first => .bind .get fun p =>
    chain_relocates (factor_relocates hinner) p.size first

theorem sum_relocates (hinner : Relocates f (Expr.relocate f) inner inner) :
    Relocates f (Expr.relocate f) (sum inner) (sum inner) :=
  .bind (term_relocates hinner) fun first => .bind .get fun p =>
    chain_relocates (term_relocates hinner) p.size first

theorem exprWithin_relocates (levels : Nat) :
    Relocates f (Expr.relocate f) (exprWithin levels) (exprWithin levels) := by
  induction levels with
  | zero => exact .throw _
  | succ levels ih => exact sum_relocates ih

end Symbols

theorem line_relocates (levels : Nat) :
    Relocates f (Expr.relocate f) (line levels) (line levels) := by
  refine .bind .get fun p => .ite Iff.rfl ?_ (exprWithin_relocates _)
  exact .bind (eat_relocates _) fun _ => .bind (exprWithin_relocates _) fun _ => .pure _

theorem programWithin_relocates (levels : Nat) :
    Relocates f (Expr.relocate f) (programWithin levels) (programWithin levels) :=
  .bind (line_relocates levels) fun tree => .bind .get fun _ =>
    .ite Iff.rfl (.pure tree) (.throw _)

/-! ### Parsing -/

theorem start_relocate (feed : Feed) :
    start (feed.relocate f) =
      ((start feed).map (Parser.relocate f)).mapError (·.map (ParseError.relocate f)) := by
  have hnext := Feed.next_relocate f feed
  cases hresult : feed.next with
  | mk outcome rest =>
    rw [hresult] at hnext
    rw [start, start, hnext, hresult]
    cases outcome with
    | ok token =>
      have hsize : (feed.relocate f).pending.length = feed.pending.length := List.length_map _
      simp only [Outcome.relocate, hsize]
      rfl
    | error failure =>
      simp only [Outcome.relocate, LexError.map_lexical_relocate]
      rfl

end Parser

/-- Parsing commutes with a change of places. -/
theorem Feed.parse_relocate (feed : Feed) (levels : Nat) :
    (feed.relocate f).parse levels = (feed.parse levels).relocate f := by
  have hrelocate := Parser.start_relocate (f := f) feed
  cases hstart : Parser.start feed with
  | error failure =>
    rw [hstart] at hrelocate
    rw [parse_of_start_error hstart, parse_of_start_error hrelocate]
    rfl
  | ok p =>
    rw [hstart] at hrelocate
    rw [parse_of_start hstart, parse_of_start hrelocate,
      Parser.programWithin_relocates levels p]
    cases Parser.programWithin levels p with
    | mk result after =>
      have htokens : (after.relocate f).drawn.reverse =
          after.drawn.reverse.map (Token.relocate f) := List.map_reverse.symm
      rw [htokens]
      cases result with
      | ok tree => rfl
      | error failure =>
        have hfailure := ParseError.ofFailure_relocate f failure
        exact congrArg (Parsed.mk _) (congrArg Except.error hfailure)

end LineCalc
