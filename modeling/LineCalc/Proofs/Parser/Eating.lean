import LineCalc.Parser
import LineCalc.Proofs.Monad

/-!
# Eating tokens

A parser changes in one way only: it gives up its current token for the next one of the feed. So a
run is a stretch of tokens that are eaten, from one parser to another, and the tokens that lie ahead
of the first one are those eaten and those ahead of the other.

* `Feed.Regular`: feeds that hold the end of the text at their end only.
* `Parser.Eats`: one parser comes to another by eating tokens.
* `Parser.ahead`: how many tokens a parser can still eat, at most.
* `Parser.Eats.tokens_eq`, `Parser.exists_eats`: the eaten tokens are those ahead, in order.
-/

namespace LineCalc

/-! ### Feeds -/

/-- The end of the text is the outcome that repeats, and no token but the end of the text is. -/
structure Feed.Regular (feed : Feed) : Prop where
  pending : ∀ token, .ok token ∈ feed.pending → token.kind ≠ .eof
  final : ∀ token, feed.final = .ok token → token.kind = .eof

/-- What a cursor reads is regular. -/
theorem Cursor.feed_regular (c : Cursor) : c.feed.Regular := by
  fun_induction Cursor.feed c with
  | case1 c hfinal =>
    refine ⟨by simp, fun token htoken => ?_⟩
    rw [show c.next.1 = .ok token from htoken] at hfinal
    simpa [Outcome.isFinal] using hfinal
  | case2 c hfinal ih =>
    refine ⟨fun token hmem => ?_, ih.final⟩
    rcases List.mem_cons.1 hmem with htoken | hmem
    · rw [← htoken] at hfinal
      simpa [Outcome.isFinal] using hfinal
    · exact ih.pending token hmem

namespace Feed

variable {feed rest : Feed} {outcome : Outcome}

/-- What is left of a regular feed is regular. -/
theorem Regular.next (h : feed.Regular) (hnext : feed.next = (outcome, rest)) : rest.Regular := by
  obtain ⟨pending, final⟩ := feed
  cases pending with
  | nil =>
    cases hnext
    exact h
  | cons first pending =>
    cases hnext
    exact ⟨fun token hmem => h.pending token (List.mem_cons_of_mem _ hmem), h.final⟩

end Feed

/-- Tokens that were seen before stand before those that follow. -/
theorem leadingTokens_eq (outcomes : List Outcome) (seen : List Token) :
    leadingTokens outcomes seen =
      (seen.reverse ++ (leadingTokens outcomes []).1, (leadingTokens outcomes []).2) := by
  induction outcomes generalizing seen with
  | nil => simp [leadingTokens]
  | cons outcome outcomes ih =>
    cases outcome with
    | error failure => simp [leadingTokens]
    | ok token =>
      rw [leadingTokens, leadingTokens, ih (token :: seen), ih [token]]
      simp

namespace Feed

variable {feed rest : Feed}

/-- A feed that starts with a failure holds no token. -/
theorem tokens_of_error {failure : Failure LexError} (h : feed.next = (.error failure, rest)) :
    feed.tokens = ([], some failure) := by
  obtain ⟨pending, final⟩ := feed
  cases pending with
  | nil =>
    obtain ⟨rfl, -⟩ := Prod.mk.inj h
    rfl
  | cons first pending =>
    obtain ⟨rfl, -⟩ := Prod.mk.inj h
    rfl

/-- The tokens of a regular feed are its first one and those of the rest, unless the first one is
the end of the text. -/
theorem Regular.tokens_of_ok (hregular : feed.Regular) {token : Token}
    (h : feed.next = (.ok token, rest)) :
    feed.tokens =
      if token.kind = .eof then ([token], none) else (token :: rest.tokens.1, rest.tokens.2) := by
  obtain ⟨pending, final⟩ := feed
  cases pending with
  | nil =>
    -- The outcome that repeats is the end of the text, so no token follows it.
    obtain ⟨rfl, -⟩ := Prod.mk.inj h
    rw [if_pos (hregular.final token rfl)]
    rfl
  | cons first pending =>
    obtain ⟨rfl, rfl⟩ := Prod.mk.inj h
    rw [if_neg (hregular.pending token List.mem_cons_self)]
    exact leadingTokens_eq _ [token]

end Feed

namespace Parser

/-! ### Steps of a parser -/

/-- The parser after its current token, if there is another one. -/
def advance (p : Parser) : Except (Failure LexError) Parser :=
  match p.feed.next with
  | (.ok token, rest) => .ok { p with current := token, feed := rest, drawn := token :: p.drawn }
  | (.error failure, _) => .error failure

/-- One parser comes to another by eating tokens, none of which is the end of the text. -/
inductive Eats : Parser → List Token → Parser → Prop
  | nil (p : Parser) : Eats p [] p
  | cons {p next q : Parser} {tokens : List Token} (hcurrent : p.current.kind ≠ .eof)
      (hnext : p.advance = .ok next) (hrest : Eats next tokens q) :
    Eats p (p.current :: tokens) q

/-- The tokens from the current one on, and the failure that follows them, if any. -/
def tokens (p : Parser) : List Token × Option (Failure LexError) :=
  if p.current.kind = .eof then ([p.current], none)
  else (p.current :: p.feed.tokens.1, p.feed.tokens.2)

/-- The current token is the first one ahead. -/
theorem exists_tokens_eq (p : Parser) : ∃ rest, p.tokens.1 = p.current :: rest := by
  rw [tokens]
  split
  · exact ⟨[], rfl⟩
  · exact ⟨_, rfl⟩

/-- A bound for the tokens that can be eaten. -/
def ahead (p : Parser) : Nat := p.feed.pending.length + if p.current.kind = .eof then 0 else 1

/-- The chains that a parser admits are long enough for all tokens ahead. -/
structure Adequate (p : Parser) : Prop where
  regular : p.feed.Regular
  ahead_le : p.ahead ≤ p.size

section Advance

variable {p next : Parser}

/-- The next parser holds the first token of the feed. -/
theorem exists_next_of_advance (h : p.advance = .ok next) :
    ∃ token rest, p.feed.next = (.ok token, rest) ∧
      next = { p with current := token, feed := rest, drawn := token :: p.drawn } := by
  rw [advance] at h
  split at h
  · rename_i token rest hnext
    cases h
    exact ⟨token, rest, hnext, rfl⟩
  · cases h

/-- Without a next parser the feed starts with a failure. -/
theorem exists_next_of_advance_error {failure : Failure LexError} (h : p.advance = .error failure) :
    ∃ rest, p.feed.next = (.error failure, rest) := by
  rw [advance] at h
  split at h
  · cases h
  · rename_i found rest hnext
    cases h
    exact ⟨rest, hnext⟩

/-- Giving up a token leaves less ahead. -/
theorem ahead_advance_lt (hregular : p.feed.Regular) (hcurrent : p.current.kind ≠ .eof)
    (h : p.advance = .ok next) : next.ahead < p.ahead := by
  obtain ⟨token, rest, hnext, rfl⟩ := exists_next_of_advance h
  rw [ahead, ahead, if_neg hcurrent]
  obtain ⟨current, ⟨pending, final⟩, drawn, size⟩ := p
  cases pending with
  | nil =>
    -- Nothing is pending, so the next token is the end of the text and no longer counts.
    obtain ⟨rfl, rfl⟩ := Prod.mk.inj hnext
    rw [if_pos (hregular.final token rfl)]
    exact Nat.lt_succ_self _
  | cons first pending =>
    obtain ⟨rfl, rfl⟩ := Prod.mk.inj hnext
    dsimp only [List.length_cons]
    split <;> omega

/-- Giving up a token keeps a parser adequate. -/
theorem Adequate.advance (hp : p.Adequate) (hcurrent : p.current.kind ≠ .eof)
    (h : p.advance = .ok next) : next.Adequate := by
  have hlt := ahead_advance_lt hp.regular hcurrent h
  have hle := hp.ahead_le
  obtain ⟨token, rest, hnext, rfl⟩ := exists_next_of_advance h
  exact ⟨hp.regular.next hnext, Nat.le_of_lt (Nat.lt_of_lt_of_le hlt hle)⟩

/-- The tokens ahead are the current one and those ahead of the next parser. -/
theorem tokens_of_advance (hregular : p.feed.Regular) (hcurrent : p.current.kind ≠ .eof)
    (h : p.advance = .ok next) : p.tokens = (p.current :: next.tokens.1, next.tokens.2) := by
  obtain ⟨token, rest, hnext, rfl⟩ := exists_next_of_advance h
  rw [tokens, if_neg hcurrent, hregular.tokens_of_ok hnext]
  rfl

/-- With a failure after it the current token is the only one ahead. -/
theorem tokens_of_advance_error {failure : Failure LexError} (hcurrent : p.current.kind ≠ .eof)
    (h : p.advance = .error failure) : p.tokens = ([p.current], some failure) := by
  obtain ⟨rest, hnext⟩ := exists_next_of_advance_error h
  rw [tokens, if_neg hcurrent, Feed.tokens_of_error hnext]

end Advance

/-! ### Eaten tokens -/

namespace Eats

variable {p q r : Parser} {tokens more : List Token}

/-- One more token is eaten at the end. -/
theorem snoc (h : Eats p tokens q) (hcurrent : q.current.kind ≠ .eof) (hnext : q.advance = .ok r) :
    Eats p (tokens ++ [q.current]) r := by
  induction h with
  | nil q => exact .cons hcurrent hnext (.nil r)
  | cons hp hstep _ ih => exact .cons hp hstep (ih hcurrent hnext)

theorem append (h : Eats p tokens q) (hmore : Eats q more r) : Eats p (tokens ++ more) r := by
  induction h with
  | nil q => exact hmore
  | cons hp hstep _ ih => exact .cons hp hstep (ih hmore)

/-- Eating in two parts. -/
theorem split (h : Eats p (tokens ++ more) r) : ∃ q, Eats p tokens q ∧ Eats q more r := by
  induction tokens generalizing p with
  | nil => exact ⟨p, .nil p, h⟩
  | cons token tokens ih =>
    cases h with
    | cons hp hstep hrest =>
      obtain ⟨q, hq, hr⟩ := ih hrest
      exact ⟨q, .cons hp hstep hq, hr⟩

/-- The first token that is eaten is the current one. -/
theorem current_eq {token : Token} (h : Eats p (token :: tokens) q) : p.current = token := by
  cases h
  rfl

/-- Without a token nothing changes. -/
theorem nil_inv (h : Eats p [] q) : q = p := by
  cases h
  rfl

/-- Eating keeps a parser adequate. -/
theorem adequate (h : Eats p tokens q) (hp : p.Adequate) : q.Adequate := by
  induction h with
  | nil p => exact hp
  | cons hcurrent hstep _ ih => exact ih (hp.advance hcurrent hstep)

/-- All that is eaten lay ahead. -/
theorem ahead_add_length_le (h : Eats p tokens q) (hregular : p.feed.Regular) :
    q.ahead + tokens.length ≤ p.ahead := by
  induction h with
  | nil p => exact Nat.le_refl _
  | cons hcurrent hstep hrest ih =>
    have hlt := ahead_advance_lt hregular hcurrent hstep
    obtain ⟨token, rest, hnext, rfl⟩ := exists_next_of_advance hstep
    have hle := ih (hregular.next hnext)
    rw [List.length_cons]
    omega

/-- The tokens ahead of a parser are those that it eats and those ahead of it then. -/
theorem tokens_eq (h : Eats p tokens q) (hregular : p.feed.Regular) :
    p.tokens = (tokens ++ q.tokens.1, q.tokens.2) := by
  induction h with
  | nil p => rfl
  | cons hcurrent hstep hrest ih =>
    rw [tokens_of_advance hregular hcurrent hstep]
    obtain ⟨token, rest, hnext, rfl⟩ := exists_next_of_advance hstep
    rw [ih (hregular.next hnext)]
    rfl

/-- The drawn tokens are those eaten and the current one. -/
theorem drawn_eq {before : List Token} (h : Eats p tokens q)
    (hp : p.drawn = p.current :: before) : q.drawn = q.current :: (tokens.reverse ++ before) := by
  induction h generalizing before with
  | nil p => exact hp
  | cons hcurrent hstep hrest ih =>
    obtain ⟨token, rest, hnext, rfl⟩ := exists_next_of_advance hstep
    rw [ih (congrArg (token :: ·) hp), List.reverse_cons, List.append_assoc, List.singleton_append]

end Eats

/-- The tokens ahead can be eaten, up to any one of them. -/
theorem exists_eats {p : Parser} (hregular : p.feed.Regular) {tokens rest : List Token}
    {token : Token} (h : p.tokens.1 = tokens ++ token :: rest) :
    ∃ q, Eats p tokens q ∧ q.current = token := by
  induction tokens generalizing p with
  | nil =>
    obtain ⟨others, hcurrent⟩ := p.exists_tokens_eq
    rw [hcurrent] at h
    exact ⟨p, .nil p, (List.cons.inj h).1⟩
  | cons first tokens ih =>
    -- More than one token lies ahead, so the current one is not the end of the text.
    have hcurrent : p.current.kind ≠ .eof := by
      intro heof
      rw [Parser.tokens, if_pos heof] at h
      simp at h
    -- Nor is it the last one before a failure.
    cases hstep : p.advance with
    | error failure =>
      rw [tokens_of_advance_error hcurrent hstep] at h
      simp at h
    | ok next =>
      rw [tokens_of_advance hregular hcurrent hstep] at h
      obtain ⟨rfl, htokens⟩ := List.cons.inj h
      obtain ⟨token, after, hnext, hnextEq⟩ := exists_next_of_advance hstep
      obtain ⟨q, hq, htoken⟩ := ih (hnextEq ▸ hregular.next hnext) htokens
      exact ⟨q, .cons hcurrent hstep hq, htoken⟩

/-! ### The first parser and single steps -/

/-- The first parser on a regular feed is adequate, and the tokens of the feed are those ahead. -/
theorem start_ok {feed : Feed} {p : Parser} (hregular : feed.Regular)
    (h : Parser.start feed = .ok p) :
    p.Adequate ∧ p.tokens = feed.tokens ∧ p.drawn = [p.current] := by
  rw [Parser.start] at h
  split at h
  · rename_i token rest hnext
    cases h
    refine ⟨⟨hregular.next hnext, ?_⟩, ?_, rfl⟩
    -- The size is one more than what the feed holds, which leaves room for the first token.
    · have hlength : rest.pending.length ≤ feed.pending.length := by
        obtain ⟨pending, final⟩ := feed
        cases pending <;> (cases hnext; simp)
      dsimp only [ahead]
      split <;> omega
    · rw [hregular.tokens_of_ok hnext]
      rfl
  · cases h

/-- Without a first parser the feed starts with a failure. -/
theorem start_error {feed : Feed} {failure : Failure ParseError}
    (h : Parser.start feed = .error failure) :
    ∃ cause, failure = cause.map .lexical ∧ feed.tokens = ([], some cause) := by
  rw [Parser.start] at h
  split at h
  · cases h
  · rename_i cause rest hnext
    cases h
    exact ⟨cause, rfl, Feed.tokens_of_error hnext⟩

section Eat

variable {p next : Parser} {kind : Kind}

/-- The first thing that a step looks at is the current token. -/
theorem get_bind {α : Type} (f : Parser → Parse α) (p : Parser) : (get >>= f) p = f p p := rfl

/-- Eating a token of the right kind goes on to the next parser. -/
theorem eat_of_ok (hkind : p.current.kind = kind) (h : p.advance = .ok next) :
    Parser.eat kind p = (.ok (), next) := by
  obtain ⟨token, rest, hnext, rfl⟩ := exists_next_of_advance h
  have hdraw : Parser.draw p = (.ok token, { p with feed := rest, drawn := token :: p.drawn }) := by
    rw [Parser.draw, hnext]
  rw [Parser.eat, get_bind, if_pos hkind, bind_of_ok hdraw]
  rfl

/-- Eating fails with the failure of the feed. The tokens drawn are the same as before. -/
theorem eat_of_error {failure : Failure LexError} (hkind : p.current.kind = kind)
    (h : p.advance = .error failure) :
    ∃ after, Parser.eat kind p = (.error (failure.map .lexical), after) ∧
      after.drawn = p.drawn := by
  obtain ⟨rest, hnext⟩ := exists_next_of_advance_error h
  have hdraw : Parser.draw p = (.error (failure.map .lexical), { p with feed := rest }) := by
    rw [Parser.draw, hnext]
  refine ⟨{ p with feed := rest }, ?_, rfl⟩
  rw [Parser.eat, get_bind, if_pos hkind, bind_of_error hdraw]

/-- A token of another kind is not eaten. -/
theorem eat_of_ne (hkind : p.current.kind ≠ kind) :
    Parser.eat kind p = (.error (.error (.unexpectedToken p.current kind)), p) := by
  rw [Parser.eat, get_bind, if_neg hkind]
  rfl

/-- A parser that has a token ahead can eat it and is then behind it, with less ahead. -/
theorem Eats.uncons {token : Token} {tokens : List Token} {q : Parser}
    (h : Eats p (token :: tokens) q) (hp : p.Adequate) :
    ∃ next : Parser, p.current = token ∧ next.Adequate ∧ next.ahead < p.ahead ∧
      Eats next tokens q ∧ ∀ {α : Type} {f : Unit → Parse α} (kind : Kind), token.kind = kind →
        (eat kind >>= f) p = f () next := by
  cases h with
  | @cons _ next _ _ hcurrent hstep hrest =>
    refine ⟨next, rfl, hp.advance hcurrent hstep, ahead_advance_lt hp.regular hcurrent hstep, hrest,
      fun kind hkind => ?_⟩
    rw [bind_of_ok (eat_of_ok hkind hstep)]

end Eat

end Parser

end LineCalc
