import LineCalc.Proofs.InOrder
import LineCalc.Proofs.Running

/-!
# Where errors point

The place of an error is that of its culprit in the text: the character that starts no lexeme, the
number that is too large, the character with which the keyword breaks off, the token that is not
expected, or the first division that has no result. The walk over a tree takes operands from left to
right and an operation after them, so that first division is the first one in the list of subtrees.

* `LexCause.Describes`, `ParseError.Describes`: an error and the text around its place.
* `Expr.FirstFault`: the operator at which an evaluation stops.
* `LineError.PointsAt`: an error and the text around an offset.
* `runLine_points_at`: the place of every error that a walk ends with.
-/

namespace LineCalc

open LineCalc.Grammar

/-! ### Lexical errors -/

/-- What a lexical error says of the text: of the characters before its place, and of those from
there on. -/
def LexCause.Describes (before rest : List Char) : LexCause → Prop
  | .unexpectedChar found => rest.head? = some found
  | .numberTooLarge digits => digits ≠ [] ∧ rest.takeWhile Char.isDigit = digits
  | .keywordExpected found => rest.head? = found ∧
    ∃ done letter more, printWord.toList = done ++ letter :: more ∧ done ≠ [] ∧
      done <:+ before ∧ found ≠ some letter

/-- A reading that fails points at the character or the digits that it fails at. -/
theorem Cursor.describes_of_error {c after : Cursor} {before : List Char} {e : LexError}
    (hplace : c.position = .after before) (h : c.next = (.error (.error e), after)) :
    ∃ passed rest, c.rest = passed ++ rest ∧ e.position = .after (before ++ passed) ∧
      e.cause.Describes (before ++ passed) rest := by
  have hends := c.next_ends
  rw [h] at hends
  cases hends with
  | @stray gap rest ch hrest =>
    exact ⟨gap, ch :: rest, hrest, position_advanceBy hplace hrest, rfl⟩
  | @tooLarge gap digits rest hrest hgap hne hdigits hend =>
    refine ⟨gap, digits ++ rest, hrest, position_advanceBy hplace hrest, hne, ?_⟩
    exact takeWhile_of_stop hdigits hend
  | @unfinished gap done more rest letter hrest hgap hword hne hfound =>
    -- The letters that match are passed too, so the place is behind them.
    have hletters : (advanceBy gap.length c).rest = done ++ rest := by simp [hrest]
    have hgapPlace := position_advanceBy hplace hrest
    refine ⟨gap ++ done, rest, by rw [hrest, List.append_assoc], ?_, rfl, done, letter, more,
      hword, hne, ⟨before ++ gap, by simp⟩, hfound⟩
    rw [← List.append_assoc]
    exact position_advanceBy hgapPlace hletters

/-- The error that ends the tokens of a text points at what it is about. -/
theorem describes_of_tokens {text : String} {e : LexError}
    (h : (Feed.ofText text).tokens.2 = some (.error e)) :
    ∃ before rest, text.toList = before ++ rest ∧ e.position = .after before ∧
      e.cause.Describes before rest := by
  obtain ⟨pieces, d, hreaches, hgap | ⟨failure, after, hnext⟩⟩ := exists_pieces text
  · rw [Feed.ofText, hreaches.tokens_of_gap hgap] at h
    cases h
  · rw [Feed.ofText, hreaches.tokens_of_error hnext] at h
    obtain rfl : failure = .error e := Option.some.inj h
    obtain ⟨passed, rest, hrest, hplace, hdescribes⟩ :=
      Cursor.describes_of_error hreaches.position hnext
    refine ⟨Piece.chars pieces ++ passed, rest, ?_, hplace, hdescribes⟩
    rw [List.append_assoc, ← hrest]
    exact hreaches.splits.chars_eq

/-! ### Syntax errors -/

/-- What a syntax error says of the text before its place and from there on. Too deep a nesting has
no place. -/
def ParseError.Describes (before rest : List Char) : ParseError → Prop
  | .unexpectedToken found _ | .trailingInput found | .numberTooLarge found =>
    found.lexeme.Leads rest
  | .lexical e => e.cause.Describes before rest
  | .tooDeep => False

/-- A syntax error that names a token has its place. -/
theorem ParseError.describes_of_found {error : ParseError} {found : Token} {rest : List Char}
    (h : error.found = some found) (hleads : found.lexeme.Leads rest) (before : List Char) :
    error.position = some found.position ∧ error.Describes before rest := by
  cases error with
  | unexpectedToken | trailingInput | numberTooLarge =>
    obtain rfl := Option.some.inj h
    exact ⟨rfl, hleads⟩
  | lexical | tooDeep => cases h

/-- An error of a text that has a place points at what it is about. -/
theorem describes_of_parse {levels : Nat} {text : String} {error : ParseError} {p : Position}
    (h : (parse levels text).result = .error (.error error)) (hposition : error.position = some p) :
    ∃ before rest, text.toList = before ++ rest ∧ p = .after before ∧
      error.Describes before rest := by
  rcases Feed.parse_error_cases (Feed.ofText_regular text) h with
    ⟨tokens, found, more, htokens, -, hrejects⟩ | ⟨e, rfl, htokens, -⟩ | rfl
  · have hmem : found ∈ (Feed.ofText text).tokens.1 := by simp [htokens]
    obtain ⟨before, rest, htext, hplace, hleads⟩ := exists_word_of_mem_tokens hmem
    obtain ⟨hfound, hdescribes⟩ :=
      ParseError.describes_of_found hrejects.found_eq hleads before
    obtain rfl : found.position = p := Option.some.inj (hfound.symm.trans hposition)
    exact ⟨before, rest, htext, hplace, hdescribes⟩
  · obtain rfl : e.position = p := Option.some.inj hposition
    exact describes_of_tokens (congrArg Prod.snd htokens)
  · cases hposition

/-! ### Faults -/

/-- Only a division can have no result. -/
theorem BinaryOp.eq_div_of_apply_error {op : BinaryOp} {a b : Int} {fault : Fault}
    (h : op.apply a b = .error fault) : op = .div := by
  cases op with
  | div => rfl
  | add | sub | mul => cases h

/-- An operator that fails gives its own place to the fault. -/
theorem Operator.apply_of_error {o : Operator} {a b : Int} {error : ArithmeticError}
    (h : (o.apply a b).outcome = .error (.error error)) :
    o.op.apply a b = .error error.fault ∧ o.position = error.position := by
  rw [apply] at h
  split at h
  · cases h
  · next happly =>
    cases h
    exact ⟨happly, rfl⟩

namespace Expr

variable {e : Expr}

/-- The subtrees of a tree that has a value have values too. -/
theorem value_of_mem_subtrees {v : Int} (h : e.value = .ok v) :
    ∀ s ∈ e.subtrees, ∃ w, s.value = .ok w := by
  induction e generalizing v with
  | num literal => simpa using ⟨v, h⟩
  | unknown name => cases h
  | print position body ih =>
    rw [subtrees_print]
    exact List.forall_mem_append.2 ⟨ih h, by simpa using ⟨v, h⟩⟩
  | binary left operator right ihLeft ihRight =>
    obtain ⟨a, hleft, hrest⟩ := ok_of_bind_ok h
    obtain ⟨b, hright, -⟩ := ok_of_bind_ok hrest
    rw [subtrees_binary]
    refine List.forall_mem_append.2 ⟨ihLeft hleft, List.forall_mem_append.2 ⟨ihRight hright, ?_⟩⟩
    simpa using ⟨v, h⟩

/-- The operator is that of the first operation without a result: all subtrees that are evaluated
before it have values, its operands among them, and for these it meets the fault. -/
def FirstFault (e : Expr) (fault : Fault) (operator : Operator) : Prop :=
  ∃ done left right more a b, e.subtrees = done ++ .binary left operator right :: more ∧
    (∀ s ∈ done, ∃ v, s.value = .ok v) ∧ left.value = .ok a ∧ right.value = .ok b ∧
    operator.op.apply a b = .error fault

/-- What is evaluated before a tree and has a value, and what comes after the fault, changes nothing
of where the fault is met. -/
theorem FirstFault.extend {whole : Expr} {fault : Fault} {operator : Operator}
    (h : e.FirstFault fault operator) (before : List Expr) {after : List Expr}
    (hsubtrees : whole.subtrees = before ++ (e.subtrees ++ after))
    (hbefore : ∀ s ∈ before, ∃ v, s.value = .ok v) : whole.FirstFault fault operator := by
  obtain ⟨done, left, right, more, a, b, hsplit, hdone, hfault⟩ := h
  refine ⟨before ++ done, left, right, more ++ after, a, b, ?_,
    List.forall_mem_append.2 ⟨hbefore, hdone⟩, hfault⟩
  rw [hsubtrees, hsplit]
  simp

theorem value_of_evalTree (hrange : ∀ v ∈ e.literals, Word.InRange v) {v : Int}
    (h : e.evalTree.outcome = .ok v) : e.value = .ok v := by
  rw [value_eq hrange, h]
  rfl

/-- The fault that an evaluation ends with is the first one, and its place is that of the operator
which meets it. -/
theorem exists_firstFault (hrange : ∀ v ∈ e.literals, Word.InRange v) {error : ArithmeticError}
    (h : e.evalTree.outcome = .error (.error error)) :
    ∃ operator, e.FirstFault error.fault operator ∧ operator.position = error.position := by
  induction e with
  | num literal => cases h
  | unknown name => cases h
  | print position body ih =>
    rcases Trace.failure_of_bind h with hbody | ⟨v, -, hprint⟩
    · obtain ⟨operator, hfirst, hplace⟩ := ih hrange hbody
      exact ⟨operator, hfirst.extend [] (subtrees_print position body) (by simp), hplace⟩
    · -- A print that fails is no fault.
      rw [Trace.print] at hprint
      split at hprint <;> cases hprint
  | binary left operator right ihLeft ihRight =>
    have hsubtrees := subtrees_binary left operator right
    obtain ⟨hleftRange, hrightRange⟩ := List.forall_mem_append.1 hrange
    rcases Trace.failure_of_bind h with hleft | ⟨a, hleft, hrest⟩
    · obtain ⟨first, hfirst, hplace⟩ := ihLeft hleftRange hleft
      exact ⟨first, hfirst.extend [] hsubtrees (by simp), hplace⟩
    have ha := value_of_evalTree hleftRange hleft
    rcases Trace.failure_of_bind hrest with hright | ⟨b, hright, happly⟩
    · obtain ⟨first, hfirst, hplace⟩ := ihRight hrightRange hright
      exact ⟨first, hfirst.extend _ hsubtrees (value_of_mem_subtrees ha), hplace⟩
    -- Both operands have values, so this operation is the first one without.
    have hb := value_of_evalTree hrightRange hright
    obtain ⟨hfault, hplace⟩ := Operator.apply_of_error happly
    refine ⟨operator, ⟨left.subtrees ++ right.subtrees, left, right, [], a, b, ?_,
      List.forall_mem_append.2 ⟨value_of_mem_subtrees ha, value_of_mem_subtrees hb⟩, ha, hb,
      hfault⟩, hplace⟩
    rw [hsubtrees, List.append_assoc]

end Expr

/-- Where a tree of a text meets its first fault, there is the character of a division. -/
theorem exists_place_of_firstFault {levels : Nat} {text : String} {tree : Expr} {fault : Fault}
    {operator : Operator} (h : (parse levels text).result = .ok tree)
    (hfirst : tree.FirstFault fault operator) :
    ∃ before rest, text.toList = before ++ rest ∧ operator.position = some (.after before) ∧
      rest.head? = some '/' := by
  obtain ⟨done, left, right, more, a, b, hsubtrees, -, -, -, happly⟩ := hfirst
  have hmem : .binary left operator right ∈ tree.subtrees := by simp [hsubtrees]
  obtain ⟨op, position, rfl, htoken⟩ := exists_token_of_binary h hmem
  obtain rfl : op = .div := BinaryOp.eq_div_of_apply_error happly
  obtain ⟨before, rest, htext, hplace, hleads⟩ := exists_word_of_mem_tokens htoken
  refine ⟨before, rest, htext, congrArg some hplace, ?_⟩
  cases hleads with
  | word hword hend =>
    cases hword
    rfl

/-! ### Lines -/

/-- An error other than that of too deep a nesting was there before. -/
theorem Transcript.outcome_of_reportDepth {t : Transcript} {error e : LineError}
    (h : (t.reportDepth error).outcome = .error (.error e)) (hne : e ≠ error) :
    t.outcome = .error (.error e) := by
  rw [reportDepth] at h
  split at h
  · cases h
    exact absurd rfl hne
  · exact h

/-- A walk that ends with a fault had the levels that it needed. -/
theorem Expr.evalTree_of_interpret [Platform] {e : Expr} {error : ArithmeticError}
    (h : e.interpret.outcome = .error (.error (.arithmetic error))) :
    e.evalTree.outcome = .error (.error error) := by
  have hinterpret : e.interpret.outcome = e.eval.outcome.mapError (·.map .arithmetic) := rfl
  have heval : e.eval.outcome = .error (.error error) := by
    cases houtcome : e.eval.outcome with
    | ok v =>
      rw [hinterpret, houtcome] at h
      cases h
    | error failure =>
      rw [hinterpret, houtcome] at h
      cases failure <;> cases h
      rfl
  rcases evalWithin_or_tooDeep walkLimit e with hdeep | hsame
  · cases heval.symm.trans hdeep
  · rwa [eval, hsame] at heval

/-- A line that ends with a fault ends with that of the tree of its text. -/
theorem exists_tree_of_arithmetic [Platform] {text : String} {settings : Settings}
    {error : ArithmeticError}
    (h : (runLine text settings .interpreter).outcome = .error (.error (.arithmetic error))) :
    ∃ tree, (settings.parse text).result = .ok tree ∧
      tree.evalTree.outcome = .error (.error error) := by
  cases hparse : (settings.parse text).result with
  | error failure =>
    rw [outcome_runLine_of_error hparse] at h
    cases failure <;> cases h
  | ok tree =>
    refine ⟨tree, rfl, Expr.evalTree_of_interpret ?_⟩
    have hrun : (tree.run settings .interpreter).outcome =
        .error (.error (.arithmetic error)) := by
      rw [← h, runLine, Parsed.run, hparse]
      rfl
    have hdeep : LineError.arithmetic error ≠ .evaluationTooDeep := LineError.noConfusion
    rw [Expr.run] at hrun
    split at hrun
    · split at hrun
      · cases hrun
      · exact Transcript.outcome_of_reportDepth hrun hdeep
    · exact Transcript.outcome_of_reportDepth hrun hdeep

/-- A line that ends with a syntax error ends with that of its text. -/
theorem result_of_syntax_error [Platform] {text : String} {settings : Settings}
    {backend : Backend} {error : ParseError}
    (h : (runLine text settings backend).outcome = .error (.error (.parse error))) :
    (settings.parse text).result = .error (.error error) := by
  cases hparse : (settings.parse text).result with
  | error failure =>
    rw [outcome_runLine_of_error hparse] at h
    cases failure <;> cases h
    rfl
  | ok tree =>
    -- A tree ends with a value, with a fault or as too deep.
    have hends := runLine_ends hparse backend
    rw [h] at hends
    rcases hends with hends | ⟨-, hdefect⟩
    · cases backend <;> cases hends
    · cases hdefect

/-- The fault is the first one that the tree of the text meets, and its place is that of the
operator. -/
def ArithmeticError.IsFirstIn (text : String) (e : ArithmeticError) : Prop :=
  ∃ levels tree operator, (parse levels text).result = .ok tree ∧
    tree.FirstFault e.fault operator ∧ operator.position = e.position

/-- The error is about the text at the given offset. -/
def LineError.PointsAt (text : String) (offset : Nat) : LineError → Prop
  | .parse e => e.Describes (text.toList.take offset) (text.toList.drop offset)
  | .arithmetic e => text.toList[offset]? = some '/' ∧ e.IsFirstIn text
  | .evaluationTooDeep | .compilationTooDeep | .backendFailure => False

/-- If the walk of a line ends with an error that has a place, this is the place of an offset in the
text, and the error is about the text there. -/
theorem runLine_points_at [Platform] {text : String} {settings : Settings} {error : LineError}
    {p : Position} (h : (runLine text settings .interpreter).outcome = .error (.error error))
    (hposition : error.report.position = some p) :
    p.offsetIn text.toList ≤ text.toList.length ∧
      p = .after (text.toList.take (p.offsetIn text.toList)) ∧
      error.PointsAt text (p.offsetIn text.toList) := by
  suffices hplace : ∃ before rest, text.toList = before ++ rest ∧ p = .after before ∧
      error.PointsAt text before.length by
    obtain ⟨before, rest, htext, rfl, hpoints⟩ := hplace
    rw [htext, Position.offsetIn_after, List.take_left]
    exact ⟨by simp, rfl, hpoints⟩
  cases error with
  | parse error =>
    obtain ⟨before, rest, htext, hplace, hdescribes⟩ :=
      describes_of_parse (result_of_syntax_error h) hposition
    refine ⟨before, rest, htext, hplace, ?_⟩
    rw [LineError.PointsAt, htext, List.take_left, List.drop_left]
    exact hdescribes
  | arithmetic error =>
    obtain ⟨tree, hparse, heval⟩ := exists_tree_of_arithmetic h
    obtain ⟨operator, hfirst, hplace⟩ :=
      Expr.exists_firstFault (Expr.known_of_isLine (isLine_of_parse hparse)).2 heval
    obtain ⟨before, rest, htext, hoperator, hhead⟩ := exists_place_of_firstFault hparse hfirst
    have hp : Position.after before = p :=
      Option.some.inj (hoperator.symm.trans (hplace.trans hposition))
    refine ⟨before, rest, htext, hp.symm, ?_, _, tree, operator, hparse, hfirst, hplace⟩
    rw [htext, List.getElem?_append_right (Nat.le_refl _), Nat.sub_self, ← List.head?_eq_getElem?,
      hhead]
  | evaluationTooDeep | compilationTooDeep | backendFailure => cases hposition

open scoped Platform in
/-- Two divisions by zero on the second line, of which the first is reported. -/
theorem runLine_points_at_division :
    let text := "1+\n8/(2-2)/0"
    let error : LineError := .arithmetic ⟨.divisionByZero, some ⟨2, 2⟩⟩
    (runLine text {} .interpreter).outcome = .error (.error error) ∧ error.PointsAt text 4 := by
  intro text error
  have hrun : (runLine text {} .interpreter).outcome = .error (.error error) := by decide +kernel
  have hoffset : (⟨2, 2⟩ : Position).offsetIn text.toList = 4 := by decide
  obtain ⟨-, -, hpoints⟩ := runLine_points_at hrun rfl
  rw [hoffset] at hpoints
  exact ⟨hrun, hpoints⟩

end LineCalc
