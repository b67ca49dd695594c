import LineCalc.Proofs.Place

/-!
# Calls on a cursor

A cursor can be called upon in any order: to read a token or a part of one, to pass a character or a
gap. A call that fails leaves the cursor where the failure showed, and more calls may follow. All of
them together keep the cursor in step with its text.

* `Cursor.MovesTo`: one cursor stands behind another in the same text.
* `Cursor.perform_movesTo`: what any call but a single step does to a cursor.
* `Cursor.StandsIn`: a cursor that is in step with a text.
* `Cursor.standsIn_performAll`: every cursor that calls lead to is.
* `Cursor.performAll_inStep`: the rest, the line, the column and the offset after any calls.
-/

namespace LineCalc

namespace Cursor

/-- What a cursor can be called upon to do. -/
inductive Call
  | next
  | scan
  | number
  | keyword
  | advance
  | skipGap
deriving DecidableEq

/-- The cursor that a call leaves, whether it fails or not. -/
def perform (c : Cursor) : Call → Cursor
  | .next => c.next.2
  | .scan => c.scan.2
  | .number => c.number.2
  | .keyword => c.keyword.2
  | .advance => c.advance
  | .skipGap => c.skipGap

/-- The cursor that some calls leave, made one after another. -/
def performAll (c : Cursor) (calls : List Call) : Cursor := calls.foldl perform c

@[simp]
theorem performAll_nil (c : Cursor) : c.performAll [] = c := rfl

@[simp]
theorem performAll_cons (c : Cursor) (call : Call) (calls : List Call) :
    c.performAll (call :: calls) = (c.perform call).performAll calls := rfl

/-! ### Moving on -/

variable {c d e : Cursor}

@[simp]
theorem offset_advance (c : Cursor) : c.advance.offset = c.offset + 1 := by
  unfold advance
  split <;> rfl

@[simp]
theorem offset_advanceBy (n : Nat) (c : Cursor) : (advanceBy n c).offset = c.offset + n := by
  induction n generalizing c with
  | zero => rfl
  | succ n ih =>
    rw [advanceBy, ih, offset_advance]
    omega

theorem advanceBy_add (m n : Nat) (c : Cursor) :
    advanceBy (m + n) c = advanceBy n (advanceBy m c) := by
  induction m generalizing c with
  | zero => rw [Nat.zero_add]; rfl
  | succ m ih =>
    rw [Nat.succ_add]
    exact ih c.advance

/-- What was read last is not looked at. -/
theorem advanceBy_withLast (n : Nat) (c : Cursor) (last : Option Kind) :
    advanceBy n { c with last } = { advanceBy n c with last } := by
  have hstep (c : Cursor) : advance { c with last } = { c.advance with last } := by
    unfold advance
    dsimp only
    split <;> rfl
  induction n generalizing c with
  | zero => rfl
  | succ n ih => rw [advanceBy, hstep, ih, advanceBy]

/-- The second cursor stands some characters behind the first one, at most at the end of the text.
What they have read last may differ. -/
def MovesTo (c d : Cursor) : Prop :=
  ∃ n ≤ c.rest.length, d = { advanceBy n c with last := d.last }

namespace MovesTo

theorem refl (c : Cursor) : c.MovesTo c := ⟨0, Nat.zero_le _, rfl⟩

theorem advanceBy {n : Nat} (h : n ≤ c.rest.length) : c.MovesTo (advanceBy n c) := ⟨n, h, rfl⟩

theorem withLast (h : c.MovesTo d) (last : Option Kind) : c.MovesTo { d with last } := by
  obtain ⟨n, hn, hd⟩ := h
  refine ⟨n, hn, ?_⟩
  rw [hd]

theorem trans (h : c.MovesTo d) (hmore : d.MovesTo e) : c.MovesTo e := by
  obtain ⟨m, hm, hd⟩ := h
  obtain ⟨n, hn, he⟩ := hmore
  have hrest : d.rest = c.rest.drop m := by rw [hd]; exact rest_advanceBy m c
  refine ⟨m + n, ?_, ?_⟩
  · rw [hrest, List.length_drop] at hn
    omega
  · rw [he, hd, advanceBy_withLast, advanceBy_add]

end MovesTo

theorem skipGap_movesTo (c : Cursor) : c.MovesTo c.skipGap :=
  .advanceBy (List.takeWhile_sublist _).length_le

theorem number_movesTo (c : Cursor) : c.MovesTo c.number.2 :=
  .advanceBy (List.takeWhile_sublist _).length_le

/-- Letters are passed only while they are there. -/
theorem letters_movesTo (word : List Char) (c : Cursor) : c.MovesTo (letters word c).2 := by
  induction word generalizing c with
  | nil => exact .refl c
  | cons letter word ih =>
    rw [letters]
    split
    · rename_i hletter
      obtain ⟨rest, hrest⟩ : ∃ rest, c.rest = letter :: rest := List.head?_eq_some_iff.1 hletter
      have hone : c.MovesTo c.advance := .advanceBy (n := 1) (by simp [hrest])
      exact hone.trans (ih c.advance)
    · exact .refl c

theorem keyword_movesTo (c : Cursor) : c.MovesTo c.keyword.2 := by
  have hletters := letters_movesTo printWord.toList c
  unfold keyword
  split <;> simp_all

theorem scan_movesTo (c : Cursor) : c.MovesTo c.scan.2 := by
  refine c.skipGap_movesTo.trans ?_
  unfold scan
  dsimp only
  split
  · exact .refl _
  · rename_i char rest hrest
    split
    · exact number_movesTo _
    split
    · exact keyword_movesTo _
    split
    · exact .advanceBy (n := 1) (by simp [hrest])
    · exact .refl _

theorem next_movesTo (c : Cursor) : c.MovesTo c.next.2 := by
  have hscan := c.scan_movesTo
  unfold next
  split
  · rename_i token after hresult
    rw [hresult] at hscan
    exact hscan.withLast _
  · rename_i failure after hresult
    rwa [hresult] at hscan

/-- All calls but a single step keep to the characters of the text, and a single step does where
there is one. -/
theorem perform_movesTo {call : Call} (h : call = .advance → c.rest ≠ []) :
    c.MovesTo (c.perform call) := by
  cases call with
  | next => exact c.next_movesTo
  | scan => exact c.scan_movesTo
  | number => exact c.number_movesTo
  | keyword => exact c.keyword_movesTo
  | advance => exact .advanceBy (n := 1) (List.length_pos_iff.2 (h rfl))
  | skipGap => exact c.skipGap_movesTo

end Cursor

/-! ### In step with a text -/

namespace Position

/-- The place some columns further to the right. -/
def rightBy (p : Position) (columns : Nat) : Position := ⟨p.line, p.col + columns⟩

/-- The column behind some characters counts those behind the last line feed among them, or all of
them if there is none. -/
theorem exists_lineStart (chars : List Char) :
    ∃ start ≤ chars.length, (start = 0 ∨ chars[start - 1]? = some '\n') ∧
      '\n' ∉ chars.drop start ∧ (after chars).col = (chars.length - start : Nat) + 1 := by
  -- The last character decides whether a line starts behind it.
  induction chars using List.reverseRecOn with
  | nil => exact ⟨0, Nat.le_refl _, .inl rfl, by simp, rfl⟩
  | append_singleton chars c ih =>
    by_cases hc : c = '\n'
    · refine ⟨chars.length + 1, by simp, .inr (by simp [hc]), by simp, ?_⟩
      rw [hc, after_newline]
      simp
    · obtain ⟨start, hstart, hfeed, hnone, hcol⟩ := ih
      refine ⟨start, by simp; omega, hfeed.imp_right fun hfeed => ?_, ?_, ?_⟩
      · exact (List.getElem?_append_left (List.getElem?_eq_some_iff.1 hfeed).1).trans hfeed
      · rw [List.drop_append_of_le_length hstart]
        simp [hnone, Ne.symm hc]
      · simp only [after_snoc hc, hcol, List.length_append, List.length_singleton]
        omega

end Position

namespace Cursor

variable {c d : Cursor} {chars : List Char}

/-- A cursor is in step with a text if it has the rest behind its offset before it and knows the
place there. Behind the end of the text only the column goes on. -/
structure StandsIn (c : Cursor) (chars : List Char) : Prop where
  rest_eq : c.rest = chars.drop c.offset
  position_eq : c.position =
    (Position.after (chars.take c.offset)).rightBy (c.offset - chars.length)

theorem standsIn_ofText (text : String) : (ofText text).StandsIn text.toList where
  rest_eq := rfl
  position_eq := by simp [ofText, ofChars, position, Position.rightBy]

/-- A single step keeps a cursor in step, also behind the end of the text. -/
theorem StandsIn.advance (h : c.StandsIn chars) : c.advance.StandsIn chars := by
  have hrest := h.rest_eq
  have hplace := h.position_eq
  refine ⟨by rw [rest_advance, hrest, offset_advance, List.drop_drop], ?_⟩
  rw [offset_advance]
  cases hchars : c.rest with
  | nil =>
    -- All characters are passed already, so they remain the same.
    have hlength : chars.length ≤ c.offset := List.drop_eq_nil_iff.1 (hrest ▸ hchars)
    have hcol : c.offset + 1 - chars.length = c.offset - chars.length + 1 := by omega
    rw [List.take_of_length_le hlength] at hplace
    rw [List.take_of_length_le (by omega), hcol]
    obtain ⟨rest, offset, line, col, last⟩ := c
    cases hchars
    simp only [position, Position.rightBy, Position.mk.injEq] at hplace
    simp only [Cursor.advance, position, Position.rightBy, Position.mk.injEq]
    omega
  | cons ch rest =>
    rw [hrest] at hchars
    have hlength : c.offset < chars.length := by
      refine Nat.lt_of_not_le fun hle => ?_
      rw [List.drop_of_length_le hle] at hchars
      cases hchars
    have htake : chars.take (c.offset + 1) = chars.take c.offset ++ [ch] := by
      have hch : chars[c.offset]? = some ch := by
        rw [← List.head?_drop, hchars]
        rfl
      rw [List.take_add_one, hch]
      rfl
    have hinside : ∀ p : Position, ∀ n ≤ chars.length, p.rightBy (n - chars.length) = p := by
      intro p n hn
      rw [Nat.sub_eq_zero_of_le hn]
      simp [Position.rightBy]
    rw [hinside _ _ (Nat.le_of_lt hlength)] at hplace
    rw [hinside _ _ hlength, htake]
    exact position_advance hplace (hrest.trans hchars)

theorem StandsIn.advanceBy (h : c.StandsIn chars) (n : Nat) :
    (advanceBy n c).StandsIn chars := by
  induction n generalizing c with
  | zero => exact h
  | succ n ih => exact ih h.advance

/-- Moving on keeps a cursor in step. -/
theorem StandsIn.movesTo (h : c.StandsIn chars) (hmoves : c.MovesTo d) : d.StandsIn chars := by
  obtain ⟨n, -, hd⟩ := hmoves
  rw [hd]
  exact ⟨(h.advanceBy n).rest_eq, (h.advanceBy n).position_eq⟩

/-- Every call keeps a cursor in step. -/
theorem StandsIn.perform (h : c.StandsIn chars) (call : Call) :
    (c.perform call).StandsIn chars := by
  by_cases hcall : call = .advance
  · subst hcall
    exact h.advance
  · exact h.movesTo (perform_movesTo fun h => absurd h hcall)

/-- So do any number of calls. -/
theorem StandsIn.performAll (h : c.StandsIn chars) (calls : List Call) :
    (c.performAll calls).StandsIn chars := by
  induction calls generalizing c with
  | nil => exact h
  | cons call calls ih => exact ih (h.perform call)

/-- Every cursor that calls lead to is in step with its text. -/
theorem standsIn_performAll (text : String) (calls : List Call) :
    ((ofText text).performAll calls).StandsIn text.toList :=
  (standsIn_ofText text).performAll calls

theorem StandsIn.current_eq (h : c.StandsIn chars) : c.current = chars[c.offset]? := by
  rw [current, h.rest_eq, List.head?_drop]

/-- What is passed is all of the text once its end is passed. -/
theorem StandsIn.line_eq (h : c.StandsIn chars) :
    c.line = 1 + (chars.take (min c.offset chars.length)).count '\n' := by
  have hline : (c.line : Int) = (chars.take c.offset).count '\n' + 1 :=
    congrArg Position.line h.position_eq
  rw [← List.take_eq_take_min]
  omega

/-- The column counts from the start of the line, which is that of the text or stands behind the
last line feed that was passed. -/
theorem StandsIn.exists_col_eq (h : c.StandsIn chars) :
    ∃ start ≤ min c.offset chars.length, (start = 0 ∨ chars[start - 1]? = some '\n') ∧
      '\n' ∉ (chars.take (min c.offset chars.length)).drop start ∧
      c.col = 1 + (min c.offset chars.length - start) +
        (c.offset - min c.offset chars.length) := by
  obtain ⟨start, hstart, hfeed, hnone, hcol⟩ :=
    Position.exists_lineStart (chars.take c.offset)
  rw [List.length_take] at hstart hcol
  refine ⟨start, hstart, hfeed.imp_right fun hfeed => ?_, ?_, ?_⟩
  · rw [List.getElem?_take] at hfeed
    split at hfeed
    · exact hfeed
    · cases hfeed
  · rwa [← List.take_eq_take_min]
  · have hplace : (c.col : Int) =
        (Position.after (chars.take c.offset)).col + (c.offset - chars.length : Nat) :=
      congrArg Position.col h.position_eq
    omega

/-- A cursor in step with a text stands at its end or behind it exactly if nothing is left. -/
theorem StandsIn.rest_eq_nil_iff (h : c.StandsIn chars) :
    c.rest = [] ↔ chars.length ≤ c.offset := by
  rw [h.rest_eq, List.drop_eq_nil_iff]

/-- Moving on leads no further than to the end of the text. -/
theorem StandsIn.offset_le_of_movesTo (h : c.StandsIn chars) (hmoves : c.MovesTo d) :
    c.offset ≤ d.offset ∧ d.offset ≤ max c.offset chars.length := by
  obtain ⟨n, hn, hd⟩ := hmoves
  rw [h.rest_eq, List.length_drop] at hn
  rw [hd]
  simp only [offset_advanceBy]
  omega

/-- After any calls, failed ones among them, the current character is the one at the offset, and the
line and the column are those of the offset: behind the end of the text the column goes on from
there. No call leads back, and none leads behind the end of the text but a single step that is made
there. -/
theorem performAll_inStep (text : String) (calls : List Call) :
    let c := (ofText text).performAll calls
    let q := min c.offset text.toList.length
    c.current = text.toList[c.offset]? ∧
      c.line = 1 + (text.toList.take q).count '\n' ∧
      (∃ start ≤ q, (start = 0 ∨ text.toList[start - 1]? = some '\n') ∧
        '\n' ∉ (text.toList.take q).drop start ∧
        c.col = 1 + (q - start) + (c.offset - q)) ∧
      ∀ call, c.offset ≤ (c.perform call).offset ∧
        ((c.perform call).offset ≤ max c.offset text.toList.length ∨
          call = .advance ∧ text.toList.length ≤ c.offset) := by
  intro c q
  have hstands := standsIn_performAll text calls
  refine ⟨hstands.current_eq, hstands.line_eq, hstands.exists_col_eq, fun call => ?_⟩
  by_cases hcall : call = .advance → c.rest ≠ []
  · obtain ⟨hle, hmax⟩ := hstands.offset_le_of_movesTo (perform_movesTo hcall)
    exact ⟨hle, .inl hmax⟩
  · obtain ⟨rfl, hrest⟩ := Classical.not_imp.1 hcall
    refine ⟨?_, .inr ⟨rfl, hstands.rest_eq_nil_iff.1 (not_not.1 hrest)⟩⟩
    rw [perform, offset_advance]
    exact Nat.le_succ _

/-- A keyword that breaks off at the end of its line, a number that is asked for there in vain, and
a step behind the end of the text. -/
theorem performAll_inStep_behind_end :
    let c := (ofText "pr\n7").performAll [.next, .number, .skipGap, .next, .advance]
    c.offset = 5 ∧ c.current = none ∧ c.line = 2 ∧ c.col = 3 := by
  intro c
  have hoffset : c.offset = 5 := by decide +kernel
  have hcol : c.col = 3 := by decide +kernel
  obtain ⟨hcurrent, hline, -⟩ :=
    performAll_inStep "pr\n7" [.next, .number, .skipGap, .next, .advance]
  refine ⟨hoffset, hcurrent.trans ?_, hline.trans ?_, hcol⟩
  · show "pr\n7".toList[c.offset]? = none
    rw [hoffset]
    rfl
  · show 1 + ("pr\n7".toList.take (min c.offset "pr\n7".toList.length)).count '\n' = 2
    rw [hoffset]
    decide

end Cursor

end LineCalc
