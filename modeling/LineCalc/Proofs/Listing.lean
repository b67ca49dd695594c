import LineCalc.Line

/-!
# Token listings

Tokens are listed one a line, in the order in which they are drawn. The line of a token shows its
kind, its value and its place. The value of a token that is always spelled alike is that spelling,
in quotes.

* `Text.quoted_of_ascii`: texts that are quoted as they stand.
* `Token.listed`: the line that lists a token.
* `Settings.listing_eq`: what is listed if that is asked for.
-/

namespace LineCalc

namespace Text

/-- The characters of ASCII that are not controls are printable. -/
theorem isPrintable_of_ascii {c : Char} (hlow : 0x20 ≤ c.toNat) (hhigh : c.toNat ≤ 0x7E) :
    isPrintable c = true := by
  have hranges : ∀ range ∈ unprintableRanges.toList, range.2 < 0x20 ∨ 0x7E < range.1 := by
    decide +kernel
  -- So it suffices that none of the ranges holds a character between these two.
  rw [isPrintable, Bool.not_eq_true', ← Array.any_toList, List.any_eq_false]
  intro range hmem h
  have hrange := hranges range hmem
  simp only [Bool.and_eq_true, decide_eq_true_eq] at h
  omega

/-- A text of such characters, none of which is a single quote or a backslash, is quoted as it
stands. -/
theorem quoted_of_ascii {text : String}
    (h : ∀ c ∈ text.toList, 0x20 ≤ c.toNat ∧ c.toNat ≤ 0x7E ∧ c ≠ '\x27' ∧ c ≠ '\\') :
    quoted text = "'" ++ text ++ "'" := by
  have hquote : quoteFor text = '\x27' := by
    have hnone : text.toList.contains '\x27' = false := by
      simpa using fun hmem => (h _ hmem).2.2.1 rfl
    rw [quoteFor, hnone]
    rfl
  -- Besides quotes and backslashes, only controls are not written as they stand.
  have hescape (c : Char) (hmem : c ∈ text.toList) : escape '\x27' c = c.toString := by
    obtain ⟨hlow, hhigh, hnotQuote, hnotBackslash⟩ := h c hmem
    have hcontrol (d : Char) (hd : d.toNat < 0x20) : c ≠ d := by
      rintro rfl
      omega
    simp [escape, hnotQuote, hnotBackslash, hcontrol, isPrintable_of_ascii hlow hhigh]
  have hbody : String.join (text.toList.map Char.toString) = text := by
    apply String.toList_inj.1
    simp [String.toList_join, List.flatMap_map, Char.toString]
  rw [quoted, hquote, List.map_congr_left hescape, hbody]
  rfl

end Text

/-- The kind and the value that a lexeme is listed with. -/
def Lexeme.listed : Lexeme → String × String
  | .integer value => ("INTEGER_CONST", toString value)
  | .op .add => ("PLUS", "'+'")
  | .op .sub => ("MINUS", "'-'")
  | .op .mul => ("MUL", "'*'")
  | .op .div => ("DIV", "'/'")
  | .lparen => ("LPAREN", "'('")
  | .rparen => ("RPAREN", "')'")
  | .print => ("PRINT", "'print'")
  | .eof => ("EOF", "None")

theorem Lexeme.listed_eq (lexeme : Lexeme) :
    lexeme.listed = (lexeme.kind.name, lexeme.payload.listed) := by
  -- Checked along the list: a statement about all characters would be decided by trying each.
  have hquoted (text : String) (h : (text.toList.all fun c =>
      0x20 ≤ c.toNat ∧ c.toNat ≤ 0x7E ∧ c ≠ '\x27' ∧ c ≠ '\\') = true) :
      "'" ++ text ++ "'" = Text.quoted text :=
    (Text.quoted_of_ascii fun c hc => of_decide_eq_true (List.all_eq_true.1 h c hc)).symm
  cases lexeme with
  | integer value => rfl
  | eof => rfl
  | lparen => exact Prod.ext rfl (hquoted "(" (by decide))
  | rparen => exact Prod.ext rfl (hquoted ")" (by decide))
  | print => exact Prod.ext rfl (hquoted "print" (by decide))
  | op o =>
    cases o with
    | add => exact Prod.ext rfl (hquoted "+" (by decide))
    | sub => exact Prod.ext rfl (hquoted "-" (by decide))
    | mul => exact Prod.ext rfl (hquoted "*" (by decide))
    | div => exact Prod.ext rfl (hquoted "/" (by decide))

/-- The line that lists a token, without its end. -/
def Token.listed (t : Token) : String :=
  let place := s!"{t.position.line}:{t.position.col}"
  s!"Token(TokenType.{t.lexeme.listed.1}, {t.lexeme.listed.2}" ++ s!", pos={place}" ++ ")"

/-- A token is shown by that line. -/
theorem Token.text_label (t : Token) : t.label.text = t.listed := by
  have hkind : t.lexeme.listed.1 = t.label.kind.name := congrArg Prod.fst (Lexeme.listed_eq _)
  have hvalue : t.lexeme.listed.2 = t.label.payload.listed :=
    congrArg Prod.snd (Lexeme.listed_eq _)
  unfold listed TokenLabel.text
  rw [hkind, hvalue]
  -- The texts of the kind and the value are the same on both sides and need not be computed.
  generalize t.label.kind.name = kind
  generalize t.label.payload.listed = value
  rfl

/-- The tokens are listed one a line if that is asked for. -/
theorem Settings.listing_eq (settings : Settings) (tokens : List Token) :
    settings.listing tokens =
      if settings.logTokens then String.join (tokens.map fun token => token.listed ++ "\n")
      else "" := by
  simp only [listing, tokenLog, Token.text_label]

end LineCalc
