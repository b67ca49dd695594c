import LineCalc.Proofs.Place

/-!
# Texts in pieces

A text is read as pieces, each a lexeme with the gap before it, and what is left behind the last of
them is a gap or starts with no lexeme. There is only one way to take a text apart like that. Every
piece gives a token with the place of its first character.

* `Lexeme.Written`: the characters of one lexeme, with any number of digits.
* `Splits`: characters that are some pieces and then a rest.
* `Cursor.Reaches`: a cursor reads some pieces and comes to another one.
* `Cursor.exists_reaches`: a cursor goes on to where only a gap is left or where it fails.
* `Splits.unique`: the pieces of a text are the only ones.
* `exists_word_of_mem_tokens`, `pairwise_tokens`: the tokens of a text stand at their places, in
  order.
* `tokens_eq_iff_isSplit`: which texts are read to their end, to which tokens, and where the others
  fail.
-/

namespace LineCalc

/-! ### Written lexemes -/

namespace Lexeme

/-- The characters that a lexeme is written with. A number may have any number of digits. -/
inductive Written : Lexeme → List Char → Prop
  | number {digits : List Char} (hne : digits ≠ []) (hdigits : ∀ c ∈ digits, c.isDigit = true) :
    Written (.integer (Nat.ofDigitChars 10 digits 0)) digits
  | op (o : BinaryOp) : Written (.op o) [o.char]
  | lparen : Written .lparen ['(']
  | rparen : Written .rparen [')']
  | print : Written .print ['p', 'r', 'i', 'n', 't']

variable {lexeme : Lexeme} {word : List Char}

/-- What is read as a lexeme is written as that. -/
theorem Spelled.written (h : lexeme.Spelled word) : lexeme.Written word := by
  cases h with
  | number hne hdigits hlength => exact .number hne hdigits
  | @single c _ hchar =>
    unfold ofChar? at hchar
    split at hchar <;> cases hchar
    · exact .op .add
    · exact .op .sub
    · exact .op .mul
    · exact .op .div
    · exact .lparen
    · exact .rparen
  | print => exact .print

/-- What is written as a lexeme is read as that, unless it is a number with too many digits. -/
theorem Written.spelled (h : lexeme.Written word) (hfit : ¬IsOverlong word) :
    lexeme.Spelled word := by
  cases h with
  | number hne hdigits =>
    exact .number hne hdigits (Nat.not_lt.1 fun hlength => hfit ⟨hdigits, hlength⟩)
  | op o => exact .single (by cases o <;> rfl)
  | lparen => exact .single rfl
  | rparen => exact .single rfl
  | print => exact .print

/-- The value of a number is the decimal value of its digits, and all other lexemes have their
source text as value. -/
theorem Written.payload_eq (h : lexeme.Written word) :
    lexeme.payload = if lexeme.kind = .integer then .number (Nat.ofDigitChars 10 word 0)
      else .text (String.ofList word) := by
  cases h with
  | number | lparen | rparen | print => rfl
  | op o => cases o <;> rfl

/-- A lexeme starts with a character that is no gap. -/
theorem Written.cases_head (h : lexeme.Written word) :
    ∃ c rest, word = c :: rest ∧ Text.isGap c = false := by
  cases h with
  | number hne hdigits =>
    obtain ⟨c, rest, rfl⟩ := List.exists_cons_of_ne_nil hne
    exact ⟨c, rest, rfl, isGap_of_isDigit (hdigits c List.mem_cons_self)⟩
  | op o => exact ⟨o.char, [], rfl, by cases o <;> rfl⟩
  | lparen | rparen | print => exact ⟨_, _, rfl, rfl⟩

/-- The lexeme stands at the start of the characters, and no more of them belong to it. The end of
the text stands where none are left. -/
inductive Leads : Lexeme → List Char → Prop
  | word {lexeme : Lexeme} {word rest : List Char} (hword : lexeme.Written word)
      (hend : lexeme.EndsBefore rest) :
    Leads lexeme (word ++ rest)
  | eof : Leads .eof []

end Lexeme

/-! ### Pieces -/

/-- A lexeme in a text, with the gap before it. -/
@[ext]
structure Piece where
  /-- The gap. -/
  gap : List Char
  /-- The characters of the lexeme. -/
  word : List Char
  /-- The lexeme. -/
  lexeme : Lexeme
  isGap : ∀ c ∈ gap, Text.isGap c = true
  written : lexeme.Written word

namespace Piece

/-- The characters of some pieces. -/
def chars (pieces : List Piece) : List Char := pieces.flatMap fun piece => piece.gap ++ piece.word

/-- The tokens of some pieces that stand behind the given characters. -/
def tokens : List Char → List Piece → List Token
  | _, [] => []
  | before, piece :: pieces =>
    ⟨piece.lexeme, .after (before ++ piece.gap)⟩ ::
      tokens (before ++ (piece.gap ++ piece.word)) pieces

/-- The kind of the last token, given that of the token before the pieces. -/
def lastKind : Option Kind → List Piece → Option Kind
  | last, [] => last
  | _, piece :: pieces => lastKind (some piece.lexeme.kind) pieces

@[simp]
theorem chars_nil : chars [] = [] := rfl

@[simp]
theorem chars_cons (piece : Piece) (pieces : List Piece) :
    chars (piece :: pieces) = piece.gap ++ (piece.word ++ chars pieces) := by
  simp [chars]

end Piece

/-- The characters are the pieces, in order, and then the rest. The kind of the token before them
bounds the first one, if that is a number. -/
inductive Splits : Option Kind → List Char → List Piece → List Char → Prop
  | nil {last : Option Kind} {rest : List Char} : Splits last rest [] rest
  | cons {last : Option Kind} {piece : Piece} {pieces : List Piece} {chars rest : List Char}
      (hfits : piece.lexeme.FitsAfter last) (hend : piece.lexeme.EndsBefore chars)
      (hrest : Splits (some piece.lexeme.kind) chars pieces rest) :
    Splits last (piece.gap ++ (piece.word ++ chars)) (piece :: pieces) rest

theorem Splits.chars_eq {last : Option Kind} {chars rest : List Char} {pieces : List Piece}
    (h : Splits last chars pieces rest) : chars = Piece.chars pieces ++ rest := by
  induction h with
  | nil => rfl
  | cons hfits hend hrest ih => simp [← ih]

/-- A token of some pieces is one of their lexemes, at its place, and ends there. -/
theorem Splits.exists_word_of_mem {last : Option Kind} {chars rest before : List Char}
    {pieces : List Piece} {token : Token} (h : Splits last chars pieces rest)
    (hmem : token ∈ Piece.tokens before pieces) :
    ∃ passed word more, chars = passed ++ (word ++ more) ∧
      token.position = .after (before ++ passed) ∧ token.lexeme.Written word ∧
      token.lexeme.EndsBefore more := by
  induction h generalizing before with
  | nil => cases hmem
  | @cons last piece pieces chars rest hfits hend hrest ih =>
    rcases List.mem_cons.1 hmem with rfl | hmem
    · exact ⟨piece.gap, piece.word, chars, rfl, rfl, piece.written, hend⟩
    · obtain ⟨passed, word, more, rfl, hplace, hword, hends⟩ := ih hmem
      refine ⟨piece.gap ++ (piece.word ++ passed), word, more, by simp, ?_, hword, hends⟩
      simpa using hplace

/-- The tokens of some pieces stand one after another. -/
theorem Splits.pairwise_tokens {last : Option Kind} {chars rest : List Char} {pieces : List Piece}
    (h : Splits last chars pieces rest) (before : List Char) :
    (Piece.tokens before pieces).Pairwise fun s t => s.position.Before t.position := by
  induction h generalizing before with
  | nil => exact .nil
  | @cons last piece pieces chars rest hfits hend hrest ih =>
    refine .cons (fun token htoken => ?_) (ih _)
    obtain ⟨passed, word, more, -, hplace, -⟩ := hrest.exists_word_of_mem htoken
    have hne : piece.word ++ passed ≠ [] := by
      obtain ⟨c, others, hword, -⟩ := piece.written.cases_head
      simp [hword]
    have hlater := Position.before_after_append (before ++ piece.gap) hne
    rw [hplace]
    simpa using hlater

/-! ### Reading pieces -/

namespace Cursor

/-- A cursor that stands behind the characters `before` reads the pieces and comes to `d`. -/
structure Reaches (c : Cursor) (before : List Char) (pieces : List Piece) (d : Cursor) : Prop where
  splits : Splits c.last c.rest pieces d.rest
  last : d.last = Piece.lastKind c.last pieces
  position : d.position = .after (before ++ Piece.chars pieces)
  tokens : c.feed.tokens = (Piece.tokens before pieces ++ d.feed.tokens.1, d.feed.tokens.2)

variable {c d : Cursor} {before : List Char}

theorem Reaches.nil (hplace : c.position = .after before) : c.Reaches before [] c where
  splits := .nil
  last := rfl
  position := by simpa using hplace
  tokens := rfl

/-- Reading a piece, and then others. -/
theorem Reaches.cons {piece : Piece} {pieces : List Piece} {rest : List Char}
    (hrest : c.rest = piece.gap ++ (piece.word ++ rest)) (hword : piece.lexeme.Spelled piece.word)
    (hfits : piece.lexeme.FitsAfter c.last) (hend : piece.lexeme.EndsBefore rest)
    (hplace : c.position = .after before)
    (h : ((advanceBy piece.gap.length c).behind piece.lexeme.kind piece.word.length).Reaches
      (before ++ (piece.gap ++ piece.word)) pieces d) :
    c.Reaches before (piece :: pieces) d := by
  have hgap := position_advanceBy hplace hrest
  have hnext := next_of_spelled hrest piece.isGap hword hfits hend
  have hsplits := h.splits
  rw [rest_behind_lexeme hrest, last_behind] at hsplits
  refine ⟨?_, h.last, ?_, ?_⟩
  · rw [hrest]
    exact .cons hfits hend hsplits
  · simpa using h.position
  · rw [tokens_feed_of_ok hnext hword.cases_head.1, h.tokens, hgap]
    rfl

/-- The place behind a piece. -/
theorem position_behind_piece {gap word rest : List Char} (hrest : c.rest = gap ++ (word ++ rest))
    (hplace : c.position = .after before) (kind : Kind) :
    ((advanceBy gap.length c).behind kind word.length).position =
      .after (before ++ (gap ++ word)) := by
  have hgap := position_advanceBy hplace hrest
  have hword : (advanceBy gap.length c).rest = word ++ rest := by simp [hrest]
  rw [position_behind, position_advanceBy hgap hword, List.append_assoc]

/-- A cursor goes on to where only a gap is left, or to where it fails. -/
theorem exists_reaches (c : Cursor) (hplace : c.position = .after before) :
    ∃ pieces d, c.Reaches before pieces d ∧
      ((∀ ch ∈ d.rest, Text.isGap ch = true) ∨
        ∃ failure after, d.next = (.error failure, after)) := by
  -- Each piece that is read leaves fewer characters ahead.
  induction hlength : c.rest.length using Nat.strongRecOn generalizing c before with
  | ind length ih =>
    have hends := c.next_ends
    generalize hnext : c.next = reading at hends
    cases hends with
    | eof hgap => exact ⟨[], c, .nil hplace, .inl hgap⟩
    | @lexeme gap word rest lexeme hrest hgap hword hfits hend =>
      obtain ⟨pieces, d, hreaches, hstop⟩ :=
        ih _ (hlength ▸ length_rest_behind_lt hrest hword lexeme.kind) _
          (position_behind_piece hrest hplace lexeme.kind) rfl
      refine ⟨⟨gap, word, lexeme, hgap, hword.written⟩ :: pieces, d, ?_, hstop⟩
      exact .cons hrest hword hfits hend hplace hreaches
    | overlong | stray | tooLarge | unfinished => exact ⟨[], c, .nil hplace, .inr ⟨_, _, hnext⟩⟩

/-- A cursor reads the pieces that stand ahead of it, if none has too many digits. -/
theorem exists_reaches_of_splits {last : Option Kind} {chars rest : List Char}
    {pieces : List Piece} (h : Splits last chars pieces rest)
    (hfit : ∀ digits, digits <:+: chars → ¬IsOverlong digits) (hlast : c.last = last)
    (hrest : c.rest = chars) (hplace : c.position = .after before) :
    ∃ d, c.Reaches before pieces d ∧ d.rest = rest := by
  induction h generalizing c before with
  | nil => exact ⟨c, .nil hplace, hrest⟩
  | @cons last piece pieces chars rest hfits hend hsplits ih =>
    subst hlast
    have hword : piece.lexeme.Spelled piece.word := by
      refine piece.written.spelled (hfit _ ⟨piece.gap, chars, ?_⟩)
      rw [List.append_assoc]
    have hchars : chars <:+: piece.gap ++ (piece.word ++ chars) :=
      ((List.suffix_append _ _).trans (List.suffix_append _ _)).isInfix
    obtain ⟨d, hreaches, hd⟩ := ih (fun digits hrun => hfit digits (hrun.trans hchars))
      (last_behind ..) (rest_behind_lexeme hrest piece.lexeme.kind)
      (position_behind_piece hrest hplace piece.lexeme.kind)
    exact ⟨d, .cons hrest hword hfits hend hplace hreaches, hd⟩

/-- Where only a gap is left, the end of the text is read, with the place behind all of it. -/
theorem Reaches.tokens_of_gap {pieces : List Piece} (h : c.Reaches before pieces d)
    (hgap : ∀ ch ∈ d.rest, Text.isGap ch = true) :
    c.feed.tokens =
      (Piece.tokens before pieces ++ [⟨.eof, .after (before ++ c.rest)⟩], none) := by
  have hend : d.rest = d.rest ++ [] := by simp
  rw [h.tokens, tokens_feed_of_eof (next_of_gap hgap) rfl, position_advanceBy h.position hend,
    List.append_assoc, ← h.splits.chars_eq]

/-- Where a reading fails, the tokens are those of the pieces before that. -/
theorem Reaches.tokens_of_error {pieces : List Piece} {failure : Failure LexError} {after : Cursor}
    (h : c.Reaches before pieces d) (hnext : d.next = (.error failure, after)) :
    c.feed.tokens = (Piece.tokens before pieces, some failure) := by
  rw [h.tokens, tokens_feed_of_error hnext, List.append_nil]

/-- Where a reading fails, no lexeme follows the gap. -/
theorem no_lexeme_of_error {failure : Failure LexError} {after : Cursor}
    (h : c.next = (.error failure, after))
    (hfit : ∀ digits, digits <:+: c.rest → ¬IsOverlong digits) :
    ∃ gap ch rest, c.rest = gap ++ ch :: rest ∧ (∀ ch ∈ gap, Text.isGap ch = true) ∧
      Text.isGap ch = false ∧
      ∀ (lexeme : Lexeme) (word more : List Char), ch :: rest = word ++ more →
        lexeme.Written word → lexeme.FitsAfter c.last → ¬lexeme.EndsBefore more := by
  obtain ⟨gap, chars, hrest, hgap, hstop⟩ := exists_run Text.isGap c.rest
  cases chars with
  | nil =>
    -- Behind a gap alone the end of the text would be read.
    have heof := next_of_gap (c := c) (by simpa [hrest] using hgap)
    cases h.symm.trans heof
  | cons ch rest =>
    refine ⟨gap, ch, rest, hrest, hgap, hstop ch rfl, ?_⟩
    -- A lexeme that stood there would be read.
    intro lexeme word more hword hwritten hfits hend
    rw [hword] at hrest
    have hspelled := hwritten.spelled (hfit word ⟨gap, more, by rw [hrest, List.append_assoc]⟩)
    cases h.symm.trans (next_of_spelled hrest hgap hspelled hfits hend)

end Cursor

/-! ### One way to take a text apart -/

namespace Piece

variable {last : Option Kind} {rest rest' : List Char}

/-- The gap of a piece ends where its lexeme starts. -/
theorem takeWhile_isGap (piece : Piece) (rest : List Char) :
    (piece.gap ++ (piece.word ++ rest)).takeWhile Text.isGap = piece.gap := by
  obtain ⟨c, others, hword, hc⟩ := piece.written.cases_head
  exact Cursor.takeWhile_of_stop piece.isGap (by simpa [hword] using hc)

/-- A text that starts with a piece is no gap. -/
theorem not_gap (piece : Piece) (rest : List Char) :
    ¬∀ c ∈ piece.gap ++ (piece.word ++ rest), Text.isGap c = true := by
  obtain ⟨c, others, hword, hc⟩ := piece.written.cases_head
  intro hgap
  have htrue := hgap c (by simp [hword])
  rw [hc] at htrue
  cases htrue

/-- Two pieces at the start of the same text are the same, because they are read as the same. -/
theorem unique {piece piece' : Piece}
    (h : piece.gap ++ (piece.word ++ rest) = piece'.gap ++ (piece'.word ++ rest'))
    (hword : piece.lexeme.Spelled piece.word) (hword' : piece'.lexeme.Spelled piece'.word)
    (hfits : piece.lexeme.FitsAfter last) (hfits' : piece'.lexeme.FitsAfter last)
    (hend : piece.lexeme.EndsBefore rest) (hend' : piece'.lexeme.EndsBefore rest') :
    piece = piece' ∧ rest = rest' := by
  obtain ⟨c, hrest, rfl⟩ : ∃ c : Cursor, c.rest = piece.gap ++ (piece.word ++ rest) ∧
      c.last = last := ⟨⟨_, 0, 1, 1, last⟩, rfl, rfl⟩
  have hrest' := hrest.trans h
  have hread := (Cursor.next_of_spelled hrest piece.isGap hword hfits hend).symm.trans
    (Cursor.next_of_spelled hrest' piece'.isGap hword' hfits' hend')
  obtain ⟨htoken, hcursor⟩ := Prod.mk.inj hread
  have hlexeme : piece.lexeme = piece'.lexeme := congrArg Token.lexeme (Except.ok.inj htoken)
  have hrests : rest = rest' := by
    rw [← Cursor.rest_behind_lexeme hrest piece.lexeme.kind, hcursor,
      Cursor.rest_behind_lexeme hrest' piece'.lexeme.kind]
  subst hrests
  have hgap : piece.gap = piece'.gap := by
    rw [← takeWhile_isGap piece rest, h, takeWhile_isGap]
  rw [hgap] at h
  exact ⟨Piece.ext hgap (List.append_cancel_right (List.append_cancel_left h)) hlexeme, rfl⟩

end Piece

/-- The characters are pieces and a gap behind them in one way only, if no run of digits is too
long. -/
theorem Splits.unique {last : Option Kind} {chars rest rest' : List Char}
    {pieces pieces' : List Piece} (h : Splits last chars pieces rest)
    (h' : Splits last chars pieces' rest')
    (hfit : ∀ digits, digits <:+: chars → ¬IsOverlong digits)
    (hgap : ∀ c ∈ rest, Text.isGap c = true) (hgap' : ∀ c ∈ rest', Text.isGap c = true) :
    pieces = pieces' ∧ rest = rest' := by
  induction h generalizing pieces' with
  | nil =>
    cases h' with
    | nil => exact ⟨rfl, rfl⟩
    | cons => exact absurd hgap (Piece.not_gap _ _)
  | @cons last piece pieces chars rest hfits hend hsplits ih =>
    generalize hall : piece.gap ++ (piece.word ++ chars) = all at h' hfit
    cases h' with
    | nil => exact absurd (hall ▸ hgap') (Piece.not_gap _ _)
    | @cons _ piece' pieces' chars' _ hfits' hend' hsplits' =>
      -- Both words are among the characters, so neither has too many digits.
      have hword : piece.lexeme.Spelled piece.word :=
        piece.written.spelled (hfit _ ⟨piece.gap, chars, by rw [← hall, List.append_assoc]⟩)
      have hword' : piece'.lexeme.Spelled piece'.word :=
        piece'.written.spelled (hfit _ ⟨piece'.gap, chars', by rw [List.append_assoc]⟩)
      obtain ⟨rfl, rfl⟩ := Piece.unique hall hword hword' hfits hfits' hend hend'
      have hchars : chars <:+: piece.gap ++ (piece.word ++ chars) :=
        ((List.suffix_append _ _).trans (List.suffix_append _ _)).isInfix
      obtain ⟨rfl, rfl⟩ :=
        ih hsplits' (fun digits hrun => hfit digits (hrun.trans hchars)) hgap
      exact ⟨rfl, rfl⟩

/-! ### Whole texts -/

/-- A text is read in pieces up to where only a gap is left, or up to where a reading fails. -/
theorem exists_pieces (text : String) :
    ∃ pieces d, (Cursor.ofText text).Reaches [] pieces d ∧
      ((∀ ch ∈ d.rest, Text.isGap ch = true) ∨
        ∃ failure after, d.next = (.error failure, after)) :=
  (Cursor.ofText text).exists_reaches rfl

/-- Every token of a text is one of its words, with the place of that, or the end of the text, with
the place behind all of it. -/
theorem exists_word_of_mem_tokens {text : String} {token : Token}
    (h : token ∈ (Feed.ofText text).tokens.1) :
    ∃ before rest, text.toList = before ++ rest ∧ token.position = .after before ∧
      token.lexeme.Leads rest := by
  obtain ⟨pieces, d, hreaches, hstop⟩ := exists_pieces text
  have hpiece (hmem : token ∈ Piece.tokens [] pieces) : ∃ before rest,
      text.toList = before ++ rest ∧ token.position = .after before ∧ token.lexeme.Leads rest := by
    obtain ⟨before, word, more, hchars, hplace, hword, hend⟩ :=
      hreaches.splits.exists_word_of_mem hmem
    exact ⟨before, word ++ more, hchars, hplace, .word hword hend⟩
  rcases hstop with hgap | ⟨failure, after, hnext⟩
  · rw [Feed.ofText, hreaches.tokens_of_gap hgap] at h
    rcases List.mem_append.1 h with hmem | hmem
    · exact hpiece hmem
    · rw [List.mem_singleton.1 hmem]
      exact ⟨text.toList, [], by simp, rfl, .eof⟩
  · rw [Feed.ofText, hreaches.tokens_of_error hnext] at h
    exact hpiece h

/-- The tokens of a text stand one after another. -/
theorem pairwise_tokens (text : String) :
    (Feed.ofText text).tokens.1.Pairwise fun s t => s.position.Before t.position := by
  obtain ⟨pieces, d, hreaches, hgap | ⟨failure, after, hnext⟩⟩ := exists_pieces text
  · rw [Feed.ofText, hreaches.tokens_of_gap hgap]
    refine List.pairwise_append.2
      ⟨hreaches.splits.pairwise_tokens _, List.pairwise_singleton _ _, ?_⟩
    -- Behind the start of every lexeme there is more of the text before its end.
    intro token hmem eof heof
    obtain ⟨before, word, more, hchars, hplace, hword, -⟩ :=
      hreaches.splits.exists_word_of_mem hmem
    obtain ⟨c, others, rfl, -⟩ := hword.cases_head
    rw [List.mem_singleton.1 heof, hplace, hchars]
    exact Position.before_after_append before (by simp)
  · rw [Feed.ofText, hreaches.tokens_of_error hnext]
    exact hreaches.splits.pairwise_tokens _

/-- The pieces are all of the text, but for a gap at its end. -/
structure IsSplit (text : String) (pieces : List Piece) (gap : List Char) : Prop where
  splits : Splits none text.toList pieces gap
  isGap : ∀ c ∈ gap, Text.isGap c = true

/-- A text whose runs of digits are not too long is read to its end exactly if it is pieces and a
gap behind them. The tokens are then those of the pieces, each with the value and the place of its
lexeme, and the end of the text; and the pieces are the only ones. Any other text is read to the
tokens of the pieces that it starts with, and behind these and a gap no lexeme follows. -/
theorem tokens_eq_iff_isSplit {text : String} (hfit : DigitRunsFit text) :
    (∀ tokens, (Feed.ofText text).tokens = (tokens, none) ↔ ∃ pieces gap,
        IsSplit text pieces gap ∧
          tokens = Piece.tokens [] pieces ++ [⟨.eof, .after text.toList⟩]) ∧
      (∀ pieces gap pieces' gap', IsSplit text pieces gap → IsSplit text pieces' gap' →
        pieces = pieces' ∧ gap = gap') ∧
      (∀ piece : Piece, piece.lexeme.payload =
        if piece.lexeme.kind = .integer then .number (Nat.ofDigitChars 10 piece.word 0)
        else .text (String.ofList piece.word)) ∧
      ∀ tokens failure, (Feed.ofText text).tokens = (tokens, some failure) →
        ∃ pieces gap ch rest, Splits none text.toList pieces (gap ++ ch :: rest) ∧
          tokens = Piece.tokens [] pieces ∧ (∀ c ∈ gap, Text.isGap c = true) ∧
          Text.isGap ch = false ∧
          ∀ (lexeme : Lexeme) (word more : List Char), ch :: rest = word ++ more →
            lexeme.Written word → lexeme.FitsAfter (Piece.lastKind none pieces) →
            ¬lexeme.EndsBefore more := by
  obtain ⟨pieces, d, hreaches, hstop⟩ := exists_pieces text
  refine ⟨fun tokens => ⟨fun h => ?_, ?_⟩, ?_, fun piece => piece.written.payload_eq, ?_⟩
  · rcases hstop with hgap | ⟨failure, after, hnext⟩
    · rw [Feed.ofText, hreaches.tokens_of_gap hgap] at h
      exact ⟨pieces, d.rest, ⟨hreaches.splits, hgap⟩, (Prod.mk.inj h).1.symm⟩
    · rw [Feed.ofText, hreaches.tokens_of_error hnext] at h
      cases h
  · rintro ⟨pieces', gap, hsplit, rfl⟩
    have hplace : (Cursor.ofText text).position = .after [] := rfl
    obtain ⟨e, hreads, rfl⟩ :=
      Cursor.exists_reaches_of_splits hsplit.splits hfit rfl rfl hplace
    exact hreads.tokens_of_gap hsplit.isGap
  · intro pieces gap pieces' gap' h h'
    exact h.splits.unique h'.splits hfit h.isGap h'.isGap
  · intro tokens failure h
    rcases hstop with hgap | ⟨cause, after, hnext⟩
    · rw [Feed.ofText, hreaches.tokens_of_gap hgap] at h
      cases h
    · rw [Feed.ofText, hreaches.tokens_of_error hnext] at h
      obtain ⟨rfl, -⟩ := Prod.mk.inj h
      have hsuffix : d.rest <:+ text.toList := ⟨_, hreaches.splits.chars_eq.symm⟩
      obtain ⟨gap, ch, rest, hrest, hgap, hch, hnone⟩ := Cursor.no_lexeme_of_error hnext
        fun digits hrun => hfit digits (hrun.trans hsuffix.isInfix)
      have hsplits := hreaches.splits
      rw [hrest] at hsplits
      rw [hreaches.last] at hnone
      exact ⟨pieces, gap, ch, rest, hsplits, rfl, hgap, hch, hnone⟩

/-- A keyword without a gap behind it, leading zeros, and the magnitude of the least word on the
line after its minus. -/
theorem tokens_eq_iff_isSplit_lines :
    let text := "print007-\n 2147483648"
    DigitRunsFit text ∧ ∃ pieces gap, IsSplit text pieces gap ∧
      Piece.tokens [] pieces = [⟨.print, ⟨1, 1⟩⟩, ⟨.integer 7, ⟨1, 6⟩⟩, ⟨.op .sub, ⟨1, 9⟩⟩,
        ⟨.integer 2147483648, ⟨2, 2⟩⟩] := by
  intro text
  have hfit : DigitRunsFit text := digitRunsFit_of_length_le (by decide)
  have htokens : (Feed.ofText text).tokens = ([⟨.print, ⟨1, 1⟩⟩, ⟨.integer 7, ⟨1, 6⟩⟩,
      ⟨.op .sub, ⟨1, 9⟩⟩, ⟨.integer 2147483648, ⟨2, 2⟩⟩] ++ [⟨.eof, ⟨2, 12⟩⟩], none) := by
    decide +kernel
  obtain ⟨pieces, gap, hsplit, hpieces⟩ := ((tokens_eq_iff_isSplit hfit).1 _).1 htokens
  exact ⟨hfit, pieces, gap, hsplit, (List.append_inj_left' hpieces rfl).symm⟩

end LineCalc
