import Mathlib.Data.List.Induction
import LineCalc.Proofs.Lexing

/-!
# Places in a text

The characters before a point of a text decide its place: its line is one more than the line feeds
among them, and its column one more than the characters after the last of these. A cursor counts
both as it goes, and never loses them.

* `Position.after`: the place behind some characters.
* `Position.Before`: the order of places, in which every character leads on.
* `Position.offsetIn`: how many characters of a text stand before a place.
* `Cursor.position_advanceBy`: a cursor knows its place.
-/

namespace LineCalc

namespace Position

/-- The place of the character that follows the given ones. -/
def after (chars : List Char) : Position :=
  ⟨chars.count '\n' + 1, (chars.reverse.takeWhile (· != '\n')).length + 1⟩

/-- Earlier places are on an earlier line, or further to the left on the same one. -/
def Before (p q : Position) : Prop := p.line < q.line ∨ p.line = q.line ∧ p.col < q.col

/-- How many characters stand before a line, if the given number of lines stand before it. -/
def lineStart : Nat → List Char → Nat
  | 0, _ => 0
  | _ + 1, [] => 0
  | lines + 1, c :: chars =>
    if c = '\n' then lineStart lines chars + 1 else lineStart (lines + 1) chars + 1

/-- How many characters of a text stand before a place: those before its line, and those before its
column in that line. -/
def offsetIn (chars : List Char) (p : Position) : Nat :=
  lineStart (p.line - 1).toNat chars + (p.col - 1).toNat

/-! ### Characters lead on -/

@[simp]
theorem after_nil : after [] = ⟨1, 1⟩ := rfl

/-- A line feed leads to the start of the next line. -/
theorem after_newline (chars : List Char) :
    after (chars ++ ['\n']) = ⟨(after chars).line + 1, 1⟩ := by
  simp [after]

/-- Any other character leads to the next column. -/
theorem after_snoc {c : Char} (hc : c ≠ '\n') (chars : List Char) :
    after (chars ++ [c]) = ⟨(after chars).line, (after chars).col + 1⟩ := by
  simp [after, hc]

theorem Before.trans {p q r : Position} (hpq : p.Before q) (hqr : q.Before r) : p.Before r := by
  simp only [Before] at *
  omega

/-- One character leads on. -/
theorem before_after_snoc (chars : List Char) (c : Char) :
    (after chars).Before (after (chars ++ [c])) := by
  by_cases hc : c = '\n'
  · subst hc
    rw [after_newline]
    exact .inl (Int.lt_succ _)
  · rw [after_snoc hc]
    exact .inr ⟨rfl, Int.lt_succ _⟩

/-- So do several of them. -/
theorem before_after_append (chars : List Char) {more : List Char} (hmore : more ≠ []) :
    (after chars).Before (after (chars ++ more)) := by
  induction more generalizing chars with
  | nil => exact absurd rfl hmore
  | cons c more ih =>
    have hstep := before_after_snoc chars c
    cases more with
    | nil => exact hstep
    | cons next more =>
      have hrest := ih (chars ++ [c]) (by simp)
      rw [List.append_assoc] at hrest
      exact hstep.trans hrest

/-! ### From places to offsets -/

/-- The line after a line feed starts behind it. -/
theorem lineStart_newline (before rest : List Char) :
    lineStart (before.count '\n' + 1) (before ++ '\n' :: rest) = before.length + 1 := by
  induction before with
  | nil => simp [lineStart]
  | cons c before ih =>
    by_cases hc : c = '\n'
    · rw [hc, List.count_cons_self, List.cons_append, lineStart, if_pos rfl, ih, List.length_cons]
    · rw [List.count_cons_of_ne hc, List.cons_append, lineStart, if_neg hc, ih, List.length_cons]

/-- The offset of a place is the number of characters before it. -/
theorem offsetIn_after (before rest : List Char) :
    (after before).offsetIn (before ++ rest) = before.length := by
  -- The last character before the place decides whether a line starts there.
  induction before using List.reverseRecOn generalizing rest with
  | nil => simp [offsetIn, lineStart]
  | append_singleton before c ih =>
    rw [List.append_assoc, List.singleton_append, List.length_append, List.length_singleton]
    by_cases hc : c = '\n'
    · subst hc
      have hstart := lineStart_newline before rest
      rw [after_newline]
      simpa [offsetIn, after] using hstart
    · have hoffset := ih (c :: rest)
      simp only [offsetIn, after_snoc hc] at hoffset ⊢
      simp only [after] at hoffset ⊢
      omega

end Position

/-! ### Cursors -/

namespace Cursor

variable {c : Cursor} {before : List Char}

/-- Passing a character leads to the place behind it. -/
theorem position_advance (hplace : c.position = .after before) {ch : Char} {rest : List Char}
    (hrest : c.rest = ch :: rest) : c.advance.position = .after (before ++ [ch]) := by
  obtain ⟨_, offset, line, col, last⟩ := c
  cases hrest
  by_cases hch : ch = '\n'
  · subst hch
    rw [Position.after_newline, ← hplace]
    rfl
  · rw [Position.after_snoc hch, ← hplace, advance]
    split
    · rename_i hnil
      cases hnil
    · rename_i hcons
      cases hcons
      exact absurd rfl hch
    · rfl

/-- Passing some characters leads to the place behind them. -/
theorem position_advanceBy (hplace : c.position = .after before) {word rest : List Char}
    (hrest : c.rest = word ++ rest) :
    (advanceBy word.length c).position = .after (before ++ word) := by
  induction word generalizing c before with
  | nil =>
    rw [List.append_nil]
    exact hplace
  | cons ch word ih =>
    have hadvance : c.advance.rest = word ++ rest := by simp [hrest]
    have hnext := ih (position_advance hplace hrest) hadvance
    rwa [List.append_assoc] at hnext

@[simp]
theorem position_behind (kind : Kind) (count : Nat) (c : Cursor) :
    (c.behind kind count).position = (advanceBy count c).position := rfl

end Cursor

end LineCalc
