import LineCalc.Proofs.Cursor.Calls

/-!
# Readings make progress

A reading either passes characters of the text, or it comes to a point where all further readings
are the same: the end of the text, or a character that starts no token. So a text is used up by at
most as many readings as it has characters, however many of them fail.

* `Outcome.GoesOn`, `Outcome.Stops`: the two sorts of results.
* `Cursor.length_rest_next_lt`, `Cursor.next_next_of_stops`: what a reading of each sort leaves.
* `Cursor.exists_stops`: readings come to a stop.
* `Cursor.next_progress`: a reading after any calls.
-/

namespace LineCalc

namespace Outcome

/-- Results behind which reading goes on: a token, a keyword that is not finished, a number that is
too large, or one with too many digits. -/
inductive GoesOn : Outcome → Prop
  | token {token : Token} (h : token.kind ≠ .eof) : GoesOn (.ok token)
  | error {e : LexError} (h : e.code = .expectedKeyword ∨ e.code = .malformedNumber) :
    GoesOn (.error (.error e))
  | overlong {digits : Nat} (h : Numeral.maxDigits < digits) :
    GoesOn (.error (.defect (.overlongNumber digits)))

/-- Results at which reading stops: the end of the text, or a character that starts no token. -/
inductive Stops : Outcome → Prop
  | eof {token : Token} (h : token.kind = .eof) : Stops (.ok token)
  | stray {e : LexError} (h : e.code = .unexpectedChar) : Stops (.error (.error e))

end Outcome

namespace Cursor

variable {c : Cursor}

/-- A reading goes on or stops; there is no other defect than that of too many digits. -/
theorem next_goesOn_or_stops (c : Cursor) : Outcome.GoesOn c.next.1 ∨ Outcome.Stops c.next.1 := by
  have hends := c.next_ends
  generalize c.next = reading at hends
  cases hends with
  | eof hgap => exact .inr (.eof rfl)
  | lexeme hrest hgap hword hfits hend => exact .inl (.token hword.cases_head.1)
  | overlong hrest hdigits hlength => exact .inl (.overlong hlength)
  | stray hrest hgap hdigit hletter hchar => exact .inr (.stray rfl)
  | tooLarge hrest hgap hne hdigits hend hfits => exact .inl (.error (.inr rfl))
  | unfinished hrest hgap hword hne hfound => exact .inl (.error (.inl rfl))

/-- A reading that goes on does not stop. -/
theorem isFinal_of_goesOn {outcome : Outcome} (h : Outcome.GoesOn outcome) :
    Outcome.isFinal outcome = false := by
  cases h with
  | token h => simpa [Outcome.isFinal] using h
  | error h => rcases h with h | h <;> simp [Outcome.isFinal, h]
  | overlong h => rfl

/-- A failed reading does not change what was read last. -/
theorem last_next_of_error {failure : Failure LexError} (h : c.next.1 = .error failure) :
    c.next.2.last = c.last := by
  have hends := c.next_ends
  generalize c.next = reading at h hends
  cases hends with
  | eof | lexeme => cases h
  | overlong | stray | tooLarge | unfinished => simp

/-- A character that starts no token is not passed. -/
theorem next_of_stray {ch : Char} {rest : List Char} (hrest : c.rest = ch :: rest)
    (hstop : Text.isGap ch = false) (hdigit : ch.isDigit = false) (hletter : ch ≠ 'p')
    (hchar : Lexeme.ofChar? ch = none) :
    c.next = (.error (.error ⟨.unexpectedChar ch, c.position⟩), c) := by
  have hskip : c.skipGap = advanceBy ([] : List Char).length c :=
    skipGap_of_rest hrest (by simp) (by simpa using hstop)
  rw [List.length_nil, advanceBy] at hskip
  have hstart : c.skipGap.rest = ch :: rest := by rw [hskip, hrest]
  rw [next, scan_of_rest hstart, if_neg (Bool.eq_false_iff.1 hdigit), if_neg hletter, hchar, hskip]

/-- A reading that stops is repeated by the next one. -/
theorem next_next_of_stops (h : Outcome.Stops c.next.1) : c.next.2.next = c.next := by
  have hends := c.next_ends
  generalize c.next = reading at h hends
  cases hends with
  | eof hgap =>
    -- Nothing is left, so there is no gap to be passed either.
    have hrest : (c.behind .eof c.rest.length).rest = [] := by simp
    rw [next_of_gap (by simp), hrest]
    rfl
  | @stray gap rest ch hrest hgap hstop hdigit hletter hchar =>
    have hstart : (advanceBy gap.length c).rest = ch :: rest := by simp [hrest]
    exact next_of_stray hstart hstop hdigit hletter hchar
  | lexeme hrest hgap hword hfits hend =>
    cases h with
    | eof heof => exact absurd heof hword.cases_head.1
  | overlong => cases h
  | tooLarge | unfinished =>
    cases h with
    | stray hcode => cases hcode

/-- A reading that stops is repeated by all that follow it. -/
theorem next_performAll_of_stops (h : Outcome.Stops c.next.1) (n : Nat) :
    (c.next.2.performAll (List.replicate n .next)).next = c.next := by
  have hrepeat := next_next_of_stops h
  induction n with
  | zero => exact hrepeat
  | succ n ih =>
    have hsame : c.next.2.perform .next = c.next.2 := congrArg Prod.snd hrepeat
    rw [List.replicate_succ, performAll_cons, hsame, ih]

/-- Readings come to a stop: each of those before passes a character at least. -/
theorem exists_stops (c : Cursor) :
    ∃ n ≤ c.rest.length, Outcome.Stops (c.performAll (List.replicate n .next)).next.1 := by
  induction hlength : c.rest.length using Nat.strongRecOn generalizing c with
  | ind length ih =>
    rcases c.next_goesOn_or_stops with hgoesOn | hstops
    · have hless := length_rest_next_lt (isFinal_of_goesOn hgoesOn)
      obtain ⟨n, hn, hstops⟩ := ih _ (hlength ▸ hless) c.next.2 rfl
      refine ⟨n + 1, by omega, ?_⟩
      rwa [List.replicate_succ, performAll_cons]
    · exact ⟨0, Nat.zero_le _, hstops⟩

/-- A reading that goes on passes some characters, and none behind the end of the text. -/
theorem StandsIn.offset_next_lt {chars : List Char} (h : c.StandsIn chars)
    (hgoesOn : Outcome.GoesOn c.next.1) :
    c.offset < c.next.2.offset ∧ c.next.2.offset ≤ chars.length := by
  have hless := length_rest_next_lt (isFinal_of_goesOn hgoesOn)
  have hrest := (h.movesTo c.next_movesTo).rest_eq
  rw [hrest, h.rest_eq, List.length_drop, List.length_drop] at hless
  obtain ⟨hle, hmax⟩ := h.offset_le_of_movesTo c.next_movesTo
  omega

/-- A reading after any calls, failed ones among them, goes on with a token or an error and has then
passed some characters of the text; or it stops, and then all readings that follow it directly give
the same and leave the same. A failed one does not change what was read last. So the readings from
the start of a text, however many of them fail, come to a stop at the latest when there is one more
of them than the text has characters. -/
theorem next_progress (text : String) (calls : List Call) :
    let c := (ofText text).performAll calls
    (Outcome.GoesOn c.next.1 ∧ c.offset < c.next.2.offset ∧
        c.next.2.offset ≤ text.toList.length ∨
      Outcome.Stops c.next.1 ∧
        ∀ n, (c.next.2.performAll (List.replicate n .next)).next = c.next) ∧
      (∀ failure, c.next.1 = .error failure → c.next.2.last = c.last) ∧
      ∃ n ≤ text.toList.length,
        Outcome.Stops ((ofText text).performAll (List.replicate n .next)).next.1 := by
  intro c
  refine ⟨?_, fun failure => last_next_of_error, exists_stops (ofText text)⟩
  rcases c.next_goesOn_or_stops with hgoesOn | hstops
  · exact .inl ⟨hgoesOn, (standsIn_performAll text calls).offset_next_lt hgoesOn⟩
  · exact .inr ⟨hstops, next_performAll_of_stops hstops⟩

/-- Behind a minus and a keyword that breaks off, reading stops for ever at the character that broke
it, and the minus is still what was read last. -/
theorem next_progress_broken_keyword :
    let c := (ofText "-pr?").performAll [.next, .next]
    let error : LexError := ⟨.unexpectedChar '?', ⟨1, 4⟩⟩
    c.next.1 = .error (.error error) ∧ c.next.2.last = some (.op .sub) ∧
      ∀ n, (c.next.2.performAll (List.replicate n .next)).next.1 = .error (.error error) := by
  intro c error
  have hnext : c.next.1 = .error (.error error) := by decide +kernel
  have hlast : c.last = some (.op .sub) := by decide +kernel
  obtain ⟨⟨hgoesOn, -⟩ | ⟨-, hrepeats⟩, hkept, -⟩ := next_progress "-pr?" [.next, .next]
  · cases (isFinal_of_goesOn hgoesOn).symm.trans (congrArg Outcome.isFinal hnext)
  · exact ⟨hnext, (hkept _ hnext).trans hlast,
      fun n => (congrArg Prod.fst (hrepeats n)).trans hnext⟩

end Cursor

end LineCalc
