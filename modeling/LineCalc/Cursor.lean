import LineCalc.Word
import LineCalc.Text.Blank
import LineCalc.Numeral

/-!
# Reading tokens from a text

A `Cursor` stands in a text and reads one token at a time. Reading skips white space and then takes
the longest lexeme; a number's bound depends on whether the token before it was a minus. A failed
reading leaves the cursor where the failure showed.

* `Cursor.length_rest_next_lt`: a reading that is not the last one leaves less to read.
-/

namespace LineCalc

/-- A place in a text together with the text that is still to be read. -/
structure Cursor where
  /-- The text from the current character on. -/
  rest : List Char
  /-- How many characters have been passed. -/
  offset : Nat
  /-- The line of the current character. -/
  line : Nat
  /-- The column of the current character. -/
  col : Nat
  /-- The kind of the token read last. -/
  last : Option Kind
deriving DecidableEq

/-- The result of an attempt to read a token. -/
abbrev Outcome := Except (Failure LexError) Token

/-- The result of an attempt to read a token, and the cursor that it leaves. -/
abbrev Reading := Outcome × Cursor

namespace Cursor

/-- The cursor at the start of a list of characters. -/
def ofChars (chars : List Char) : Cursor := ⟨chars, 0, 1, 1, none⟩

/-- The cursor at the start of a text. -/
def ofText (text : String) : Cursor := ofChars text.toList

/-- The current character, unless the text is used up. -/
def current (c : Cursor) : Option Char := c.rest.head?

/-- The place of the current character. -/
def position (c : Cursor) : Position := ⟨c.line, c.col⟩

/-- Pass one character. Past the end of the text the count still goes on. -/
def advance (c : Cursor) : Cursor :=
  match c.rest with
  | [] => { c with offset := c.offset + 1, col := c.col + 1 }
  | '\n' :: rest => { c with rest, offset := c.offset + 1, line := c.line + 1, col := 1 }
  | _ :: rest => { c with rest, offset := c.offset + 1, col := c.col + 1 }

/-- Pass a number of characters. -/
def advanceBy : Nat → Cursor → Cursor
  | 0, c => c
  | n + 1, c => advanceBy n c.advance

/-- Pass the white space at the current character. -/
def skipGap (c : Cursor) : Cursor := advanceBy (c.rest.takeWhile Text.isGap).length c

/-- The digits of a number. -/
def digitChars : String := "0123456789"

/-- The greatest number that may stand here. After a minus it is one more than the greatest word,
because the two together may denote the least one. -/
def limit (c : Cursor) : Int :=
  if c.last = some (.op .sub) then Word.maxValue + 1 else Word.maxValue

/-- Read the run of digits at the current character. -/
def number (c : Cursor) : Reading :=
  let digits := c.rest.takeWhile Char.isDigit
  let outcome : Outcome :=
    match Numeral.ofDigits digits with
    | .error defect => .error (.defect defect)
    | .ok value =>
      if c.limit < value then .error (.error ⟨.numberTooLarge digits, c.position⟩)
      else .ok ⟨.integer value, c.position⟩
  (outcome, advanceBy digits.length c)

/-- Pass the given letters one by one, and stop at the first that does not match. -/
def letters : List Char → Cursor → Except LexError Unit × Cursor
  | [], c => (.ok (), c)
  | letter :: more, c =>
    if c.current = some letter then letters more c.advance
    else (.error ⟨.keywordExpected c.current, c.position⟩, c)

/-- Read the keyword at the current character. -/
def keyword (c : Cursor) : Reading :=
  match letters printWord.toList c with
  | (.ok (), after) => (.ok ⟨.print, c.position⟩, after)
  | (.error e, after) => (.error (.error e), after)

/-- Read the token after the white space at the current character. -/
def scan (c : Cursor) : Reading :=
  let start := c.skipGap
  match start.rest with
  | [] => (.ok ⟨.eof, start.position⟩, start)
  | char :: _ =>
    if char.isDigit then start.number
    else if char = 'p' then start.keyword
    else match Lexeme.ofChar? char with
      | some lexeme => (.ok ⟨lexeme, start.position⟩, start.advance)
      | none => (.error (.error ⟨.unexpectedChar char, start.position⟩), start)

/-- Read the next token and remember its kind. -/
def next (c : Cursor) : Reading :=
  match c.scan with
  | (.ok token, after) => (.ok token, { after with last := some token.kind })
  | (.error failure, after) => (.error failure, after)

/-! ### What is left to read -/

/-- Passing a character drops it. -/
@[simp]
theorem rest_advance (c : Cursor) : c.advance.rest = c.rest.drop 1 := by
  unfold advance
  split <;> simp_all

/-- Passing a number of characters drops as many. -/
@[simp]
theorem rest_advanceBy (n : Nat) (c : Cursor) : (advanceBy n c).rest = c.rest.drop n := by
  induction n generalizing c with
  | zero => rfl
  | succ n ih => simp [advanceBy, ih]

/-- Matching letters never gives anything back. -/
theorem length_rest_letters_le (word : List Char) (c : Cursor) :
    (letters word c).2.rest.length ≤ c.rest.length := by
  induction word generalizing c with
  | nil => simp [letters]
  | cons letter more ih =>
    unfold letters
    split
    · exact Nat.le_trans (ih _) (by simp)
    · exact Nat.le_refl _

/-- A keyword that starts well leaves less to read. -/
theorem length_rest_keyword_lt {c : Cursor} {rest : List Char} (h : c.rest = 'p' :: rest) :
    c.keyword.2.rest.length < c.rest.length := by
  have hword : printWord.toList = 'p' :: ['r', 'i', 'n', 't'] := by decide
  have hstep : letters printWord.toList c = letters ['r', 'i', 'n', 't'] c.advance := by
    rw [hword, letters, if_pos (by simp [current, h])]
  have hle := length_rest_letters_le ['r', 'i', 'n', 't'] c.advance
  have hkeyword : c.keyword.2 = (letters printWord.toList c).2 := by
    unfold keyword
    split <;> simp_all
  rw [hkeyword, hstep]
  simp only [rest_advance, h, List.drop_one, List.tail_cons] at hle
  simp only [h, List.length_cons]
  omega

/-- A number that starts with a digit leaves less to read. -/
theorem length_rest_number_lt {c : Cursor} {digit : Char} {rest : List Char}
    (h : c.rest = digit :: rest) (hdigit : digit.isDigit = true) :
    c.number.2.rest.length < c.rest.length := by
  simp only [number, rest_advanceBy, h, List.takeWhile_cons_of_pos hdigit, List.length_drop,
    List.length_cons]
  omega

end Cursor

/-- A result after which every further reading is the same: the end of the text, or a character that
starts no token. -/
def Outcome.isFinal : Outcome → Bool
  | .ok token => token.kind == .eof
  | .error (.error e) => e.code == .unexpectedChar
  | .error (.defect _) => false

namespace Cursor

/-- A scan that is not the last one leaves less to read. -/
theorem length_rest_scan_lt {c : Cursor} (h : Outcome.isFinal c.scan.1 = false) :
    c.scan.2.rest.length < c.rest.length := by
  have hskip : c.skipGap.rest.length ≤ c.rest.length := by simp [skipGap]
  refine Nat.lt_of_lt_of_le ?_ hskip
  revert h
  unfold scan
  dsimp only
  split
  · intro h; simp [Outcome.isFinal, Token.kind, Lexeme.kind] at h
  · rename_i char rest hrest
    split
    · intro _; exact length_rest_number_lt hrest ‹_›
    · split
      · intro _; subst char; exact length_rest_keyword_lt hrest
      · split
        · intro _; simp [hrest]
        · intro h; simp [Outcome.isFinal, LexError.code] at h

/-- A reading that is not the last one leaves less to read. -/
theorem length_rest_next_lt {c : Cursor} (h : Outcome.isFinal c.next.1 = false) :
    c.next.2.rest.length < c.rest.length := by
  have hscan := @length_rest_scan_lt c
  unfold next at *
  split at * <;> simp_all

end Cursor

end LineCalc
