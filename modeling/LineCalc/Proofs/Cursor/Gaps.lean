import LineCalc.Proofs.Cursor.Calls
import LineCalc.Proofs.Parser.Relocation

/-!
# Readings and gaps

A reading looks at the characters ahead and at the kind of the token before them, and not at its
place. It passes the gap before a token, however long that is, and a lexeme that ends before other
characters ends before a gap as well. So a gap that is put in behind some tokens changes the places
of what is read behind it, and nothing else.

* `Cursor.SameAhead`: cursors with the same characters ahead, at whatever places.
* `Cursor.next_alike`: one reading of such cursors.
* `Cursor.feed_alike`: all their readings.
* `Cursor.LacksGap`: a cursor with a gap put in ahead of it, and one without.
* `Cursor.LacksGap.next`, `Cursor.LacksGap.feed`: one reading of such cursors, and all of them, if
  the gap stands behind some tokens.
-/

namespace LineCalc

/-- The same place for all. -/
def Position.forget (_ : Position) : Position := ⟨1, 1⟩

theorem Outcome.isFinal_relocate (f : Position → Position) (outcome : Outcome) :
    isFinal (relocate f outcome) = isFinal outcome := by
  rcases outcome with (e | d) | token <;> rfl

theorem Feed.relocate_cons (f : Position → Position) (outcome : Outcome) (feed : Feed) :
    (feed.cons outcome).relocate f = (feed.relocate f).cons (Outcome.relocate f outcome) := rfl

/-- A lexeme that ends before some characters ends also before a gap among them. -/
theorem Lexeme.EndsBefore.spaced {lexeme : Lexeme} {gap front back : List Char}
    (h : lexeme.EndsBefore (front ++ back)) (hgap : ∀ ch ∈ gap, Text.isGap ch = true) :
    lexeme.EndsBefore (front ++ (gap ++ back)) := by
  cases lexeme with
  | integer value =>
    match front, gap with
    | [], [] => exact h
    | [], ch :: _ =>
      -- No character of a gap is a digit.
      have hch := hgap ch List.mem_cons_self
      have hdigit : ch.isDigit ≠ true := fun hdigit => by simp [isGap_of_isDigit hdigit] at hch
      simpa [EndsBefore] using hdigit
    | ch :: _, _ => exact h
  | op | lparen | rparen | print | eof => trivial

namespace Cursor

variable {c d : Cursor}

/-! ### Readings at other places -/

/-- Two cursors have the same characters ahead, after tokens of the same kind. -/
structure SameAhead (c d : Cursor) : Prop where
  rest : c.rest = d.rest
  last : c.last = d.last

/-- Two readings differ in their places only. -/
structure AlikeReadings (r s : Reading) : Prop where
  outcome : Outcome.relocate .forget r.1 = Outcome.relocate .forget s.1
  cursor : r.2.SameAhead s.2

theorem SameAhead.advanceBy (h : c.SameAhead d) (n : Nat) :
    (advanceBy n c).SameAhead (advanceBy n d) where
  rest := by rw [rest_advanceBy, rest_advanceBy, h.rest]
  last := by rw [last_advanceBy, last_advanceBy, h.last]

theorem rest_skipGap (c : Cursor) : c.skipGap.rest = c.rest.dropWhile Text.isGap := by
  have hsplit : c.rest.takeWhile Text.isGap ++ c.rest.dropWhile Text.isGap = c.rest :=
    List.takeWhile_append_dropWhile
  rw [skipGap, rest_advanceBy]
  conv_lhs => arg 2; rw [← hsplit]
  exact List.drop_left

theorem SameAhead.skipGap (h : c.SameAhead d) : c.skipGap.SameAhead d.skipGap := by
  unfold Cursor.skipGap
  rw [h.rest]
  exact h.advanceBy _

theorem number_alike (h : c.SameAhead d) : AlikeReadings c.number d.number := by
  have hlimit : c.limit = d.limit := by rw [limit, limit, h.last]
  unfold number
  rw [h.rest, hlimit]
  refine ⟨?_, h.advanceBy _⟩
  dsimp only
  cases Numeral.ofDigits (d.rest.takeWhile Char.isDigit) with
  | error defect => rfl
  | ok value =>
    dsimp only
    split <;> rfl

theorem letters_alike (word : List Char) (h : c.SameAhead d) :
    (letters word c).1.mapError (·.relocate .forget) =
        (letters word d).1.mapError (·.relocate .forget) ∧
      (letters word c).2.SameAhead (letters word d).2 := by
  induction word generalizing c d with
  | nil => exact ⟨rfl, h⟩
  | cons letter word ih =>
    have hcurrent : c.current = d.current := by rw [current, current, h.rest]
    rw [letters, letters, hcurrent]
    split
    · exact ih (h.advanceBy 1)
    · exact ⟨rfl, h⟩

theorem keyword_alike (h : c.SameAhead d) : AlikeReadings c.keyword d.keyword := by
  have hletters := letters_alike printWord.toList h
  unfold keyword
  generalize letters printWord.toList c = r at hletters
  generalize letters printWord.toList d = s at hletters
  obtain ⟨houtcome, hcursor⟩ := hletters
  obtain ⟨result, after⟩ := r
  obtain ⟨result', after'⟩ := s
  cases result with
  | ok done =>
    cases result' with
    | error => cases houtcome
    | ok done' => exact ⟨rfl, hcursor⟩
  | error e =>
    cases result' with
    | ok => cases houtcome
    | error e' =>
      have herror : e.relocate .forget = e'.relocate .forget := Except.error.inj houtcome
      refine ⟨?_, hcursor⟩
      simp only [Outcome.relocate, Failure.map, herror]

/-- What is read behind a gap depends on the characters there and on the token before the gap. -/
theorem scan_alike (h : c.skipGap.SameAhead d.skipGap) : AlikeReadings c.scan d.scan := by
  unfold scan
  dsimp only
  rw [h.rest]
  split
  · exact ⟨rfl, h⟩
  · split
    · exact number_alike h
    split
    · exact keyword_alike h
    split
    · exact ⟨rfl, h.advanceBy 1⟩
    · exact ⟨rfl, h⟩

theorem next_alike (h : c.skipGap.SameAhead d.skipGap) : AlikeReadings c.next d.next := by
  have hscan := scan_alike h
  unfold next
  generalize c.scan = r at hscan
  generalize d.scan = s at hscan
  obtain ⟨houtcome, hcursor⟩ := hscan
  obtain ⟨result, after⟩ := r
  obtain ⟨result', after'⟩ := s
  cases result with
  | ok token =>
    cases result' with
    | error => cases houtcome
    | ok token' =>
      have htoken : token.relocate .forget = token'.relocate .forget := Except.ok.inj houtcome
      have hlexeme : token.lexeme = token'.lexeme := congrArg (·.lexeme) htoken
      refine ⟨houtcome, hcursor.rest, ?_⟩
      dsimp only [Token.kind]
      rw [hlexeme]
  | error failure =>
    cases result' with
    | ok => cases houtcome
    | error failure' => exact ⟨houtcome, hcursor⟩

/-- Cursors read the same, but for the places, if they do so once and, if that was not the last
reading, afterwards. -/
theorem feed_of_next
    (hnext : Outcome.relocate .forget c.next.1 = Outcome.relocate .forget d.next.1)
    (hmore : Outcome.isFinal c.next.1 = false →
      c.next.2.feed.relocate .forget = d.next.2.feed.relocate .forget) :
    c.feed.relocate .forget = d.feed.relocate .forget := by
  have hfinal : Outcome.isFinal c.next.1 = Outcome.isFinal d.next.1 := by
    rw [← Outcome.isFinal_relocate .forget, hnext, Outcome.isFinal_relocate]
  unfold feed
  rw [← hfinal]
  split
  · rw [Feed.relocate, Feed.relocate, hnext]
  · rename_i hnot
    rw [Feed.relocate_cons, Feed.relocate_cons, hnext, hmore (Bool.eq_false_iff.2 hnot)]

/-- Cursors that have the same ahead of them behind a gap read the same, but for the places. -/
theorem feed_alike (h : c.skipGap.SameAhead d.skipGap) :
    c.feed.relocate .forget = d.feed.relocate .forget := by
  -- Each reading that is not the last one leaves fewer characters ahead.
  induction hlength : c.rest.length using Nat.strongRecOn generalizing c d with
  | ind length ih =>
    obtain ⟨houtcome, hcursor⟩ := next_alike h
    refine feed_of_next houtcome fun hmore => ?_
    exact ih _ (hlength ▸ length_rest_next_lt hmore) hcursor.skipGap rfl

/-! ### A gap put in -/

/-- The first readings of a cursor give tokens, none of which is the end of the text. -/
def ReadsTokens (c : Cursor) (count : Nat) : Prop :=
  ∀ i < count, ∃ token, (c.performAll (List.replicate i .next)).next.1 = .ok token ∧
    token.kind ≠ .eof

theorem ReadsTokens.uncons {count : Nat} (h : c.ReadsTokens (count + 1)) :
    (∃ token, c.next.1 = .ok token ∧ token.kind ≠ .eof) ∧ c.next.2.ReadsTokens count :=
  ⟨h 0 (Nat.zero_lt_succ _), fun i hi => h (i + 1) (Nat.succ_lt_succ hi)⟩

theorem performAll_next_movesTo (c : Cursor) (count : Nat) :
    c.MovesTo (c.performAll (List.replicate count .next)) := by
  induction count generalizing c with
  | zero => exact .refl c
  | succ count ih => exact c.next_movesTo.trans (ih c.next.2)

/-- A cursor that has moved on has passed some characters. -/
theorem MovesTo.exists_passed (h : c.MovesTo d) : ∃ passed, c.rest = passed ++ d.rest := by
  obtain ⟨n, -, hd⟩ := h
  refine ⟨c.rest.take n, ?_⟩
  rw [hd]
  exact (List.take_append_drop n c.rest).symm.trans (congrArg _ (rest_advanceBy n c).symm)

/-- A token that is not the end of the text is a lexeme behind a gap. -/
theorem exists_lexeme_of_ok {token : Token} (h : c.next.1 = .ok token)
    (heof : token.kind ≠ .eof) :
    ∃ gap word rest, c.rest = gap ++ (word ++ rest) ∧ (∀ ch ∈ gap, Text.isGap ch = true) ∧
      token.lexeme.Spelled word ∧ token.lexeme.FitsAfter c.last ∧
      token.lexeme.EndsBefore rest := by
  have hends := c.next_ends
  generalize c.next = reading at h hends
  cases hends with
  | eof hgap =>
    cases h
    exact absurd rfl heof
  | @lexeme gap word rest lexeme hrest hgap hword hfits hend =>
    cases h
    exact ⟨gap, word, rest, hrest, hgap, hword, hfits, hend⟩
  | overlong | stray | tooLarge | unfinished => cases h

/-- The second cursor has a gap ahead that the first one lacks, before the characters `ahead`. -/
structure LacksGap (c : Cursor) (gap ahead : List Char) (d : Cursor) : Prop where
  rest : ∃ passed, c.rest = passed ++ ahead ∧ d.rest = passed ++ (gap ++ ahead)
  last : c.last = d.last

variable {gap ahead : List Char}

/-- Where the gap comes next, it makes no difference. -/
theorem LacksGap.skipGap (h : c.LacksGap gap ahead d) (hgap : ∀ ch ∈ gap, Text.isGap ch = true)
    (hahead : c.rest = ahead) : c.skipGap.SameAhead d.skipGap := by
  obtain ⟨passed, hrest, hspaced⟩ := h.rest
  obtain rfl : passed = [] := by simpa [hahead] using hrest
  refine ⟨?_, ?_⟩
  · rw [rest_skipGap, rest_skipGap, hspaced, hrest]
    exact (List.dropWhile_append_of_pos hgap).symm
  · simpa only [Cursor.skipGap, last_advanceBy] using h.last

/-- A token that is read before the gap is read all the same with it. -/
theorem LacksGap.next (h : c.LacksGap gap ahead d) (hgap : ∀ ch ∈ gap, Text.isGap ch = true)
    {token : Token} (htoken : c.next.1 = .ok token) (heof : token.kind ≠ .eof)
    (hlater : ∃ later, c.next.2.rest = later ++ ahead) :
    Outcome.relocate .forget c.next.1 = Outcome.relocate .forget d.next.1 ∧
      c.next.2.LacksGap gap ahead d.next.2 := by
  obtain ⟨passed, hrest, hspaced⟩ := h.rest
  obtain ⟨later, hlater⟩ := hlater
  obtain ⟨before, word, rest, hchars, hbefore, hword, hfits, hend⟩ :=
    exists_lexeme_of_ok htoken heof
  have hnext := next_of_spelled hchars hbefore hword hfits hend
  -- The token ends before the gap, so the gap does not touch it.
  have hafter : rest = later ++ ahead := by rw [← hlater, hnext, rest_behind_lexeme hchars]
  obtain rfl : before ++ (word ++ later) = passed := by
    rw [hchars, hafter] at hrest
    exact (List.append_left_inj ahead).1 (by simpa only [List.append_assoc] using hrest)
  have hchars' : d.rest = before ++ (word ++ (later ++ (gap ++ ahead))) := by simpa using hspaced
  rw [hafter] at hend
  have hnext' := next_of_spelled hchars' hbefore hword (h.last ▸ hfits) (hend.spaced hgap)
  refine ⟨by rw [hnext, hnext']; rfl, ⟨later, hlater, ?_⟩, by rw [hnext, hnext']; rfl⟩
  rw [hnext', rest_behind_lexeme hchars']

/-- A gap behind the first tokens changes nothing but places. -/
theorem LacksGap.feed {count : Nat} (h : c.LacksGap gap ahead d)
    (hgap : ∀ ch ∈ gap, Text.isGap ch = true) (hread : c.ReadsTokens count)
    (hahead : (c.performAll (List.replicate count .next)).rest = ahead) :
    c.feed.relocate .forget = d.feed.relocate .forget := by
  induction count generalizing c d with
  | zero => exact feed_alike (h.skipGap hgap hahead)
  | succ count ih =>
    obtain ⟨⟨token, htoken, heof⟩, hmore⟩ := hread.uncons
    have hahead' : (c.next.2.performAll (List.replicate count .next)).rest = ahead := hahead
    have hlater := (performAll_next_movesTo c.next.2 count).exists_passed
    rw [hahead'] at hlater
    obtain ⟨houtcome, hcursor⟩ := h.next hgap htoken heof hlater
    exact feed_of_next houtcome fun _ => ih hcursor hmore hahead'

end Cursor

end LineCalc
