import LineCalc.Proofs.Parser.Eating

/-!
# The lexemes of a text

Which characters make which lexemes, without regard to how they are read. Gaps may stand between
lexemes, a number goes on as long as digits follow, and its bound depends on the lexeme before it.

* `Lexeme.Spelled`: the characters of one lexeme.
* `Lexes`: characters that are lexemes with gaps between them.
* `DigitRunsFit`: texts without a run of digits that is too long.
* `Cursor.next_of_spelled`, `Cursor.next_ends`: what one reading does, and that it does nothing
  else.
* `Cursor.exists_tokens_of_lexes`, `Cursor.lexes_of_tokens`: a text is read to its end exactly if it
  is made of lexemes, and these are then the ones that are read.
* `Cursor.exists_run_of_defect`: the only defect of a text is a run of digits that is too long.
-/

namespace LineCalc

/-! ### Spelling -/

namespace Lexeme

/-- The characters that a lexeme is written with. -/
inductive Spelled : Lexeme → List Char → Prop
  | number {digits : List Char} (hne : digits ≠ []) (hdigits : ∀ c ∈ digits, c.isDigit = true)
      (hlength : digits.length ≤ Numeral.maxDigits) :
    Spelled (.integer (Nat.ofDigitChars 10 digits 0)) digits
  | single {c : Char} {lexeme : Lexeme} (hchar : ofChar? c = some lexeme) : Spelled lexeme [c]
  | print : Spelled .print printWord.toList

/-- A number is small enough to follow a token of the given kind. After a minus it may be one more
than the greatest word. -/
def FitsAfter (last : Option Kind) : Lexeme → Prop
  | .integer value =>
    (value : Int) ≤ if last = some (.op .sub) then Word.maxValue + 1 else Word.maxValue
  | _ => True

/-- A lexeme does not go on with the characters after it: no digit follows a number. -/
def EndsBefore (rest : List Char) : Lexeme → Prop
  | .integer _ => ∀ c ∈ rest.head?, c.isDigit = false
  | _ => True

/-- The characters that make a lexeme on their own are neither digits nor letters nor gaps. -/
theorem ofChar?_cases {c : Char} {lexeme : Lexeme} (h : ofChar? c = some lexeme) :
    c.isDigit = false ∧ c ≠ 'p' ∧ Text.isGap c = false ∧ lexeme.kind ≠ .integer ∧
      lexeme.kind ≠ .eof := by
  unfold ofChar? at h
  split at h <;> cases h <;> decide

/-- Only numbers have a bound. -/
theorem fitsAfter_of_kind {lexeme : Lexeme} (h : lexeme.kind ≠ .integer) (last : Option Kind) :
    lexeme.FitsAfter last := by
  cases lexeme with
  | integer => exact absurd rfl h
  | op | lparen | rparen | print | eof => trivial

/-- Only numbers could go on with what follows them. -/
theorem endsBefore_of_kind {lexeme : Lexeme} (h : lexeme.kind ≠ .integer) (rest : List Char) :
    lexeme.EndsBefore rest := by
  cases lexeme with
  | integer => exact absurd rfl h
  | op | lparen | rparen | print | eof => trivial

/-- What fits anywhere fits after a minus. -/
theorem FitsAfter.of_none {lexeme : Lexeme} (h : lexeme.FitsAfter none) (last : Option Kind) :
    lexeme.FitsAfter last := by
  cases lexeme with
  | integer value =>
    have hvalue : (value : Int) ≤ Word.maxValue := h
    simp only [FitsAfter]
    split <;> omega
  | op | lparen | rparen | print | eof => trivial

/-- Digits are no gaps. -/
theorem isGap_of_isDigit {c : Char} (h : c.isDigit = true) : Text.isGap c = false := by
  refine Bool.eq_false_iff.2 fun hgap => ?_
  simp only [Text.isGap, Bool.or_eq_true, beq_iff_eq] at hgap
  rcases hgap with ((rfl | rfl) | rfl) | rfl <;> simp at h

/-- A lexeme is no end of the text, and it starts with a character that is no gap. -/
theorem Spelled.cases_head {lexeme : Lexeme} {word : List Char} (h : lexeme.Spelled word) :
    lexeme.kind ≠ .eof ∧ ∃ c rest, word = c :: rest ∧ Text.isGap c = false := by
  cases h with
  | @number digits hne hdigits hlength =>
    obtain ⟨c, rest, rfl⟩ := List.exists_cons_of_ne_nil hne
    exact ⟨by simp [kind], c, rest, rfl, isGap_of_isDigit (hdigits c List.mem_cons_self)⟩
  | single hchar => exact ⟨(ofChar?_cases hchar).2.2.2.2, _, [], rfl, (ofChar?_cases hchar).2.2.1⟩
  | print => exact ⟨by simp [kind], 'p', ['r', 'i', 'n', 't'], by decide, by decide⟩

end Lexeme

/-- The characters are the lexemes, in order, with gaps around them. The kind of the token before
them bounds the first one, if that is a number. -/
inductive Lexes : Option Kind → List Char → List Lexeme → Prop
  | done {last : Option Kind} {gap : List Char} (hgap : ∀ c ∈ gap, Text.isGap c = true) :
    Lexes last gap []
  | lexeme {last : Option Kind} {gap word rest : List Char} {first : Lexeme} {more : List Lexeme}
      (hgap : ∀ c ∈ gap, Text.isGap c = true) (hword : first.Spelled word)
      (hfits : first.FitsAfter last) (hend : first.EndsBefore rest)
      (hrest : Lexes (some first.kind) rest more) :
    Lexes last (gap ++ (word ++ rest)) (first :: more)

namespace Lexes

variable {last : Option Kind} {chars more : List Char} {lexemes others : List Lexeme}

/-- Nothing is read from no characters. -/
theorem nil (last : Option Kind) : Lexes last [] [] := .done (by simp)

/-- A gap may stand before the lexemes. -/
theorem gap_append {gap : List Char} (hgap : ∀ c ∈ gap, Text.isGap c = true)
    (h : Lexes last chars lexemes) : Lexes last (gap ++ chars) lexemes := by
  cases h with
  | done hrest => exact .done (List.forall_mem_append.2 ⟨hgap, hrest⟩)
  | lexeme hgap' hword hfits hend hrest =>
    rw [← List.append_assoc]
    exact .lexeme (List.forall_mem_append.2 ⟨hgap, hgap'⟩) hword hfits hend hrest

/-- What can stand at the start of a text can stand after any token. -/
theorem of_none (h : Lexes none chars lexemes) (last : Option Kind) :
    Lexes last chars lexemes := by
  cases h with
  | done hgap => exact .done hgap
  | lexeme hgap hword hfits hend hrest => exact .lexeme hgap hword (hfits.of_none last) hend hrest

/-- Lexemes may be followed by others that do not start with a digit. -/
theorem append (h : Lexes last chars lexemes) (hmore : ∀ last, Lexes last more others)
    (hstart : ∀ c ∈ more.head?, c.isDigit = false) :
    Lexes last (chars ++ more) (lexemes ++ others) := by
  induction h with
  | done hgap => exact (hmore _).gap_append hgap
  | @lexeme last gap word rest first _ hgap hword hfits hend hrest ih =>
    have hend' : first.EndsBefore (rest ++ more) := by
      cases first with
      | integer value =>
        -- What follows the number is what followed it before, or the start of the others.
        cases rest with
        | nil => exact hstart
        | cons c rest => exact hend
      | op | lparen | rparen | print | eof => trivial
    rw [List.append_assoc, List.append_assoc]
    exact .lexeme hgap hword hfits hend' ih

/-- A lexeme with no gap before it. -/
theorem unspaced {word : List Char} {first : Lexeme} (hword : first.Spelled word)
    (hfits : first.FitsAfter last) (hend : first.EndsBefore more)
    (hmore : Lexes (some first.kind) more others) :
    Lexes last (word ++ more) (first :: others) := by
  have hgap : ∀ c ∈ ([] : List Char), Text.isGap c = true := by simp
  exact .lexeme hgap hword hfits hend hmore

/-- A single character with the lexemes after it. -/
theorem single {c : Char} {first : Lexeme} (hchar : Lexeme.ofChar? c = some first)
    (hmore : ∀ last, Lexes last more others) (last : Option Kind) :
    Lexes last (c :: more) (first :: others) := by
  have hkind := (Lexeme.ofChar?_cases hchar).2.2.2.1
  exact unspaced (.single hchar) (Lexeme.fitsAfter_of_kind hkind last)
    (Lexeme.endsBefore_of_kind hkind more) (hmore _)

/-- A single character any number of times, with the lexemes after it. -/
theorem replicate {c : Char} {first : Lexeme} (hchar : Lexeme.ofChar? c = some first)
    (hmore : ∀ last, Lexes last more others) (n : Nat) (last : Option Kind) :
    Lexes last (List.replicate n c ++ more) (List.replicate n first ++ others) := by
  induction n generalizing last with
  | zero => exact hmore last
  | succ n ih => exact single hchar ih last

/-- No number among the lexemes is larger than what may follow a minus. -/
theorem integer_le (h : Lexes last chars lexemes) :
    ∀ value : Nat, .integer value ∈ lexemes → (value : Int) ≤ Word.maxValue + 1 := by
  induction h with
  | done => simp
  | @lexeme last gap word rest first more hgap hword hfits hend hrest ih =>
    intro value hmem
    rcases List.mem_cons.1 hmem with rfl | hmem
    · simp only [Lexeme.FitsAfter] at hfits
      split at hfits <;> omega
    · exact ih value hmem

end Lexes

/-- What some tokens read. -/
def lexemes (tokens : List Token) : List Lexeme := tokens.map (·.lexeme)

@[simp]
theorem lexemes_nil : lexemes [] = [] := rfl

@[simp]
theorem lexemes_cons (token : Token) (tokens : List Token) :
    lexemes (token :: tokens) = token.lexeme :: lexemes tokens := rfl

@[simp]
theorem lexemes_append (first second : List Token) :
    lexemes (first ++ second) = lexemes first ++ lexemes second := List.map_append

section Lexemes

variable {tokens : List Token} {first : Lexeme} {rest others : List Lexeme}

theorem lexemes_eq_nil (h : lexemes tokens = []) : tokens = [] := List.map_eq_nil_iff.1 h

theorem lexemes_eq_cons (h : lexemes tokens = first :: rest) :
    ∃ position more, tokens = ⟨first, position⟩ :: more ∧ lexemes more = rest := by
  obtain ⟨⟨_, position⟩, more, rfl, rfl, hmore⟩ := List.map_eq_cons_iff.1 h
  exact ⟨position, more, rfl, hmore⟩

theorem lexemes_eq_append (h : lexemes tokens = rest ++ others) :
    ∃ front back, tokens = front ++ back ∧ lexemes front = rest ∧ lexemes back = others :=
  List.map_eq_append_iff.1 h

end Lexemes

/-! ### Runs of digits -/

/-- Digits that are too many to be converted to a number. -/
def IsOverlong (digits : List Char) : Prop :=
  (∀ c ∈ digits, c.isDigit = true) ∧ Numeral.maxDigits < digits.length

/-- No run of digits in the text is too long. -/
def DigitRunsFit (text : String) : Prop := ∀ digits, digits <:+: text.toList → ¬IsOverlong digits

/-- In a short text no run of digits is too long. -/
theorem digitRunsFit_of_length_le {text : String} (h : text.toList.length ≤ Numeral.maxDigits) :
    DigitRunsFit text := by
  intro digits hinfix hlong
  have hle := hinfix.length_le
  have hlength := hlong.2
  omega

/-! ### One reading -/

namespace Cursor

variable {c : Cursor} {gap word rest : List Char}

@[simp]
theorem last_advance (c : Cursor) : c.advance.last = c.last := by
  unfold advance
  split <;> rfl

@[simp]
theorem last_advanceBy (n : Nat) (c : Cursor) : (advanceBy n c).last = c.last := by
  induction n generalizing c with
  | zero => rfl
  | succ n ih => rw [advanceBy, ih, last_advance]

/-- The characters of a class are taken up to the first one that is not of it. -/
theorem takeWhile_of_stop {p : Char → Bool} (hword : ∀ ch ∈ word, p ch = true)
    (hstop : ∀ ch ∈ rest.head?, p ch = false) : (word ++ rest).takeWhile p = word := by
  have htake : rest.takeWhile p = [] := by
    cases rest with
    | nil => rfl
    | cons ch rest => simp [hstop ch rfl]
  rw [List.takeWhile_append_of_pos hword, htake, List.append_nil]

/-- Every text starts with a run of characters of a class that no other one of it follows. -/
theorem exists_run (p : Char → Bool) (chars : List Char) :
    ∃ run rest, chars = run ++ rest ∧ (∀ ch ∈ run, p ch = true) ∧
      ∀ ch ∈ rest.head?, p ch = false := by
  refine ⟨chars.takeWhile p, chars.dropWhile p, by simp, ?_, fun ch hch => ?_⟩
  · exact List.all_eq_true.1 List.all_takeWhile
  · have hnot := List.head?_dropWhile_not p chars
    rwa [Option.mem_def.1 hch] at hnot

/-- The gap before a lexeme is passed. -/
theorem skipGap_of_rest (hrest : c.rest = gap ++ rest) (hgap : ∀ ch ∈ gap, Text.isGap ch = true)
    (hstop : ∀ ch ∈ rest.head?, Text.isGap ch = false) :
    c.skipGap = advanceBy gap.length c := by
  rw [skipGap, hrest, takeWhile_of_stop hgap hstop]

/-- The cursor some characters further on, behind a token of the given kind. -/
def behind (kind : Kind) (count : Nat) (c : Cursor) : Cursor :=
  { advanceBy count c with last := some kind }

@[simp]
theorem rest_behind (kind : Kind) (count : Nat) (c : Cursor) :
    (c.behind kind count).rest = c.rest.drop count := rest_advanceBy count c

@[simp]
theorem last_behind (kind : Kind) (count : Nat) (c : Cursor) :
    (c.behind kind count).last = some kind := rfl

/-- Letters that stand in the text are passed. -/
theorem letters_of_rest (hrest : c.rest = word ++ rest) :
    letters word c = (.ok (), advanceBy word.length c) := by
  induction word generalizing c with
  | nil => rfl
  | cons letter word ih =>
    rw [letters, if_pos (by simp [current, hrest]), ih (by simp [hrest])]
    rfl

/-- The run of digits at the cursor makes the number, if it can be converted and is not too
large. -/
theorem number_of_rest {digits : List Char} (hrest : c.rest = digits ++ rest)
    (hdigits : ∀ ch ∈ digits, ch.isDigit = true) (hend : ∀ ch ∈ rest.head?, ch.isDigit = false) :
    c.number = (match Numeral.ofDigits digits with
      | .error defect => .error (.defect defect)
      | .ok value =>
        if c.limit < value then .error (.error ⟨.numberTooLarge digits, c.position⟩)
        else .ok ⟨.integer value, c.position⟩, advanceBy digits.length c) := by
  obtain rfl : digits = c.rest.takeWhile Char.isDigit := by
    rw [hrest, takeWhile_of_stop hdigits hend]
  rfl

/-- The first character after the gap decides what is read. -/
theorem scan_of_rest {ch : Char} (h : c.skipGap.rest = ch :: rest) :
    c.scan =
      if ch.isDigit then c.skipGap.number
      else if ch = 'p' then c.skipGap.keyword
      else match Lexeme.ofChar? ch with
        | some lexeme => (.ok ⟨lexeme, c.skipGap.position⟩, c.skipGap.advance)
        | none => (.error (.error ⟨.unexpectedChar ch, c.skipGap.position⟩), c.skipGap) := by
  unfold scan
  dsimp only
  split
  · rename_i hnil
    cases h.symm.trans hnil
  · rename_i hcons
    cases h.symm.trans hcons
    rfl

/-- A lexeme that stands after the gap is scanned. -/
theorem scan_of_spelled {lexeme : Lexeme} (hstart : c.skipGap.rest = word ++ rest)
    (hword : lexeme.Spelled word) (hfits : lexeme.FitsAfter c.skipGap.last)
    (hend : lexeme.EndsBefore rest) :
    c.scan = (.ok ⟨lexeme, c.skipGap.position⟩, advanceBy word.length c.skipGap) := by
  cases hword with
  | number hne hdigits hlength =>
    obtain ⟨first, others, hfirst⟩ := List.exists_cons_of_ne_nil hne
    have hdigit : first.isDigit = true := hdigits first (by simp [hfirst])
    have hvalue : Numeral.ofDigits word = .ok (Nat.ofDigitChars 10 word 0) := by
      rw [Numeral.ofDigits, if_neg (by simpa using hne), if_neg (Nat.not_lt.2 hlength)]
    have hlimit : ¬c.skipGap.limit < (Nat.ofDigitChars 10 word 0 : Nat) := Int.not_lt.2 hfits
    have hchars : c.skipGap.rest = first :: (others ++ rest) := by simp [hstart, hfirst]
    rw [scan_of_rest hchars, if_pos hdigit, number_of_rest hstart hdigits hend, hvalue]
    simp only [if_neg hlimit]
  | @single ch _ hchar =>
    obtain ⟨hdigit, hletter, -⟩ := Lexeme.ofChar?_cases hchar
    rw [scan_of_rest hstart, hdigit, hchar]
    simp only [Bool.false_eq_true, if_false, if_neg hletter]
    rfl
  | print =>
    have hchars : c.skipGap.rest = 'p' :: (['r', 'i', 'n', 't'] ++ rest) := by
      rw [hstart, show printWord.toList = ['p', 'r', 'i', 'n', 't'] by decide]
      rfl
    rw [scan_of_rest hchars, if_neg (by decide), if_pos rfl, keyword, letters_of_rest hstart]

/-- A lexeme is read with its place, and the cursor is left behind it. -/
theorem next_of_spelled {lexeme : Lexeme} (hrest : c.rest = gap ++ (word ++ rest))
    (hgap : ∀ ch ∈ gap, Text.isGap ch = true) (hword : lexeme.Spelled word)
    (hfits : lexeme.FitsAfter c.last) (hend : lexeme.EndsBefore rest) :
    c.next = (.ok ⟨lexeme, (advanceBy gap.length c).position⟩,
      (advanceBy gap.length c).behind lexeme.kind word.length) := by
  obtain ⟨-, first, others, hfirst, hnotGap⟩ := hword.cases_head
  have hskip : c.skipGap = advanceBy gap.length c :=
    skipGap_of_rest hrest hgap (by simpa [hfirst] using hnotGap)
  rw [next, scan_of_spelled (by simp [hskip, hrest]) hword (by simpa [hskip] using hfits) hend,
    hskip]
  rfl

/-- Where only a gap is left the end of the text is read. -/
theorem next_of_gap (hgap : ∀ ch ∈ c.rest, Text.isGap ch = true) :
    c.next = (.ok ⟨.eof, (advanceBy c.rest.length c).position⟩, c.behind .eof c.rest.length) := by
  have hrest : c.rest = c.rest ++ [] := by simp
  have hskip : c.skipGap = advanceBy c.rest.length c := skipGap_of_rest hrest hgap (by simp)
  have hstart : c.skipGap.rest = [] := by simp [hskip]
  rw [next, scan, hstart, hskip]
  rfl

/-- How a reading can end: with a lexeme or the end of the text, with a run of digits that is too
long, or with an error. An error is that of a character that starts no lexeme, of a number that is
too large here, or of a keyword that is begun and not finished. -/
inductive Ends (c : Cursor) : Reading → Prop
  | eof (hgap : ∀ ch ∈ c.rest, Text.isGap ch = true) :
    Ends c (.ok ⟨.eof, (advanceBy c.rest.length c).position⟩, c.behind .eof c.rest.length)
  | lexeme {gap word rest : List Char} {lexeme : Lexeme} (hrest : c.rest = gap ++ (word ++ rest))
      (hgap : ∀ ch ∈ gap, Text.isGap ch = true) (hword : lexeme.Spelled word)
      (hfits : lexeme.FitsAfter c.last) (hend : lexeme.EndsBefore rest) :
    Ends c (.ok ⟨lexeme, (advanceBy gap.length c).position⟩,
      (advanceBy gap.length c).behind lexeme.kind word.length)
  | overlong {gap digits rest : List Char} (hrest : c.rest = gap ++ (digits ++ rest))
      (hdigits : ∀ ch ∈ digits, ch.isDigit = true) (hlength : Numeral.maxDigits < digits.length) :
    Ends c (.error (.defect (.overlongNumber digits.length)),
      advanceBy digits.length (advanceBy gap.length c))
  | stray {gap rest : List Char} {ch : Char} (hrest : c.rest = gap ++ ch :: rest)
      (hgap : ∀ ch ∈ gap, Text.isGap ch = true) (hstop : Text.isGap ch = false)
      (hdigit : ch.isDigit = false) (hletter : ch ≠ 'p') (hchar : Lexeme.ofChar? ch = none) :
    Ends c (.error (.error ⟨.unexpectedChar ch, (advanceBy gap.length c).position⟩),
      advanceBy gap.length c)
  | tooLarge {gap digits rest : List Char} (hrest : c.rest = gap ++ (digits ++ rest))
      (hgap : ∀ ch ∈ gap, Text.isGap ch = true) (hne : digits ≠ [])
      (hdigits : ∀ ch ∈ digits, ch.isDigit = true) (hend : ∀ ch ∈ rest.head?, ch.isDigit = false)
      (hfits : ¬(Lexeme.integer (Nat.ofDigitChars 10 digits 0)).FitsAfter c.last) :
    Ends c (.error (.error ⟨.numberTooLarge digits, (advanceBy gap.length c).position⟩),
      advanceBy digits.length (advanceBy gap.length c))
  | unfinished {gap done more rest : List Char} {letter : Char}
      (hrest : c.rest = gap ++ (done ++ rest)) (hgap : ∀ ch ∈ gap, Text.isGap ch = true)
      (hword : printWord.toList = done ++ letter :: more) (hne : done ≠ [])
      (hfound : rest.head? ≠ some letter) :
    Ends c (.error (.error ⟨.keywordExpected rest.head?,
        (advanceBy done.length (advanceBy gap.length c)).position⟩),
      advanceBy done.length (advanceBy gap.length c))

/-- At a lexeme a reading ends with it. -/
theorem ends_of_spelled {lexeme : Lexeme} (hrest : c.rest = gap ++ (word ++ rest))
    (hgap : ∀ ch ∈ gap, Text.isGap ch = true) (hword : lexeme.Spelled word)
    (hfits : lexeme.FitsAfter c.last) (hend : lexeme.EndsBefore rest) : c.Ends c.next := by
  rw [next_of_spelled hrest hgap hword hfits hend]
  exact .lexeme hrest hgap hword hfits hend

/-- Of letters that do not stand in the text those before the first other character are passed. -/
theorem letters_error {word : List Char} {c : Cursor} (h : ¬word <+: c.rest) :
    ∃ done letter more rest, word = done ++ letter :: more ∧ c.rest = done ++ rest ∧
      rest.head? ≠ some letter ∧
      letters word c = (.error ⟨.keywordExpected rest.head?, (advanceBy done.length c).position⟩,
        advanceBy done.length c) := by
  induction word generalizing c with
  | nil => exact absurd List.nil_prefix h
  | cons letter word ih =>
    by_cases hletter : c.current = some letter
    · obtain ⟨rest, hrest⟩ : ∃ rest, c.rest = letter :: rest := List.head?_eq_some_iff.1 hletter
      have hadvance : c.advance.rest = rest := by simp [hrest]
      have hword : ¬word <+: c.advance.rest := by
        rw [hadvance]
        rw [hrest] at h
        exact fun hprefix => h (List.cons_prefix_cons.2 ⟨rfl, hprefix⟩)
      obtain ⟨done, next, more, after, rfl, hafter, hnext, hletters⟩ := ih hword
      refine ⟨letter :: done, next, more, after, rfl, ?_, hnext, ?_⟩
      · rw [hrest, ← hadvance, hafter]
        rfl
      · rw [letters, if_pos hletter, hletters]
        rfl
    · refine ⟨[], letter, word, c.rest, rfl, rfl, hletter, ?_⟩
      rw [letters, if_neg hletter]
      rfl

/-- At a run of digits a number is read, if the run is not too long and its number not too
large. -/
theorem ends_of_digits {digits : List Char} (hrest : c.rest = gap ++ (digits ++ rest))
    (hgap : ∀ ch ∈ gap, Text.isGap ch = true) (hstart : c.skipGap = advanceBy gap.length c)
    (hne : digits ≠ []) (hdigits : ∀ ch ∈ digits, ch.isDigit = true)
    (hend : ∀ ch ∈ rest.head?, ch.isDigit = false) : c.Ends c.next := by
  have hchars : c.skipGap.rest = digits ++ rest := by simp [hstart, hrest]
  have hscan : c.scan = c.skipGap.number := by
    obtain ⟨first, others, rfl⟩ := List.exists_cons_of_ne_nil hne
    rw [scan_of_rest hchars, if_pos (hdigits first List.mem_cons_self)]
  rw [number_of_rest hchars hdigits hend, Numeral.ofDigits, if_neg (by simpa using hne)] at hscan
  by_cases hlength : digits.length ≤ Numeral.maxDigits
  · by_cases hfits : (Lexeme.integer (Nat.ofDigitChars 10 digits 0)).FitsAfter c.last
    · exact ends_of_spelled hrest hgap (.number hne hdigits hlength) hfits hend
    · have hlimit : c.skipGap.limit < (Nat.ofDigitChars 10 digits 0 : Nat) := by
        rw [limit, hstart, last_advanceBy]
        exact Int.not_le.1 hfits
      rw [next, hscan, if_neg (Nat.not_lt.2 hlength)]
      simp only [if_pos hlimit]
      rw [hstart]
      exact .tooLarge hrest hgap hne hdigits hend hfits
  · rw [next, hscan, if_pos (Nat.not_le.1 hlength), hstart]
    exact .overlong hrest hdigits (Nat.not_le.1 hlength)

/-- At a run of digits that is too long a reading ends with that. -/
theorem next_of_overlong {digits : List Char} (hrest : c.rest = digits ++ rest)
    (hdigits : ∀ ch ∈ digits, ch.isDigit = true) (hend : ∀ ch ∈ rest.head?, ch.isDigit = false)
    (hlength : Numeral.maxDigits < digits.length) :
    c.next = (.error (.defect (.overlongNumber digits.length)), advanceBy digits.length c) := by
  obtain ⟨first, others, rfl⟩ := List.exists_cons_of_length_pos (Nat.zero_lt_of_lt hlength)
  have hdigit : first.isDigit = true := hdigits first List.mem_cons_self
  have hskip : c.skipGap = c := by
    rw [skipGap, hrest, List.cons_append,
      List.takeWhile_cons_of_neg (by simp [Lexeme.isGap_of_isDigit hdigit])]
    rfl
  have hchars : c.skipGap.rest = (first :: others) ++ rest := by rw [hskip, hrest]
  rw [next, scan_of_rest hchars, if_pos hdigit, number_of_rest hchars hdigits hend, hskip,
    Numeral.ofDigits, if_neg (by simp), if_pos hlength]

/-- A reading ends in one of these ways. -/
theorem next_ends (c : Cursor) : c.Ends c.next := by
  obtain ⟨gap, chars, hrest, hgap, hstop⟩ := exists_run Text.isGap c.rest
  have hskip : c.skipGap = advanceBy gap.length c := skipGap_of_rest hrest hgap hstop
  have hstart : c.skipGap.rest = chars := by simp [hskip, hrest]
  cases chars with
  | nil =>
    have hgaps : ∀ ch ∈ c.rest, Text.isGap ch = true := by simpa [hrest] using hgap
    rw [next_of_gap hgaps]
    exact .eof hgaps
  | cons ch chars =>
    -- The first character after the gap decides which of the readings is tried.
    have hscan := scan_of_rest hstart
    by_cases hdigit : ch.isDigit = true
    · obtain ⟨digits, rest, hchars, hdigits, hend⟩ := exists_run Char.isDigit (ch :: chars)
      refine ends_of_digits (hchars ▸ hrest) hgap hskip ?_ hdigits hend
      -- The run holds at least the first digit.
      rintro rfl
      rw [List.nil_append] at hchars
      simp [← hchars, hdigit] at hend
    · rw [if_neg hdigit] at hscan
      by_cases hletter : ch = 'p'
      · rw [if_pos hletter] at hscan
        by_cases hword : printWord.toList <+: c.skipGap.rest
        · obtain ⟨rest, hword⟩ := hword
          rw [hstart] at hword
          rw [← hword] at hrest
          exact ends_of_spelled hrest hgap .print trivial trivial
        · obtain ⟨done, letter, more, rest, hsplit, hdone, hfound, hletters⟩ := letters_error hword
          rw [hstart] at hdone
          -- The first letter is the one that the keyword was tried for.
          have hne : done ≠ [] := by
            rintro rfl
            have hfirst : letter = 'p' := (List.cons.inj hsplit).1.symm
            rw [List.nil_append] at hdone
            simp [← hdone, hletter, hfirst] at hfound
          rw [next, hscan, keyword, hletters, hskip]
          exact .unfinished (hdone ▸ hrest) hgap hsplit hne hfound
      · rw [if_neg hletter] at hscan
        cases hchar : Lexeme.ofChar? ch with
        | none =>
          rw [next, hscan, hchar, hskip]
          exact .stray hrest hgap (hstop ch rfl) (Bool.eq_false_iff.2 hdigit) hletter hchar
        | some lexeme =>
          have hkind := (Lexeme.ofChar?_cases hchar).2.2.2.1
          exact ends_of_spelled hrest hgap (.single hchar)
            (Lexeme.fitsAfter_of_kind hkind c.last) (Lexeme.endsBefore_of_kind hkind chars)

/-! ### All readings -/

/-- At the end of the text a cursor reads nothing else. -/
theorem tokens_feed_of_eof {token : Token} {after : Cursor} (h : c.next = (.ok token, after))
    (heof : token.kind = .eof) : c.feed.tokens = ([token], none) := by
  rw [feed, h, if_pos (by simp [Outcome.isFinal, heof])]
  rfl

/-- The tokens of a cursor are the first one that it reads and those that it reads after that. -/
theorem tokens_feed_of_ok {token : Token} {after : Cursor} (h : c.next = (.ok token, after))
    (heof : token.kind ≠ .eof) :
    c.feed.tokens = (token :: after.feed.tokens.1, after.feed.tokens.2) := by
  rw [feed, h, if_neg (by simp [Outcome.isFinal, heof])]
  exact leadingTokens_eq _ [token]

/-- A cursor that fails reads no tokens. -/
theorem tokens_feed_of_error {failure : Failure LexError} {after : Cursor}
    (h : c.next = (.error failure, after)) : c.feed.tokens = ([], some failure) := by
  rw [feed, h]
  split <;> rfl

/-- Behind a lexeme the characters after it are left. -/
theorem rest_behind_lexeme (hrest : c.rest = gap ++ (word ++ rest)) (kind : Kind) :
    ((advanceBy gap.length c).behind kind word.length).rest = rest := by
  simp [hrest]

/-- A text that is made of lexemes is read to its end, and to these lexemes. -/
theorem exists_tokens_of_lexes {last : Option Kind} {chars : List Char} {read : List Lexeme}
    (h : Lexes last chars read) {c : Cursor} (hlast : c.last = last) (hrest : c.rest = chars) :
    ∃ tokens, c.feed.tokens = (tokens, none) ∧ lexemes tokens = read ++ [.eof] := by
  induction h generalizing c with
  | done hgap =>
    subst hrest
    exact ⟨_, tokens_feed_of_eof (next_of_gap hgap) rfl, rfl⟩
  | @lexeme last gap word rest first more hgap hword hfits hend _ ih =>
    have hnext := next_of_spelled hrest hgap hword (hlast ▸ hfits) hend
    obtain ⟨tokens, htokens, hlexemes⟩ := ih (last_behind ..) (rest_behind_lexeme hrest first.kind)
    refine ⟨⟨first, (advanceBy gap.length c).position⟩ :: tokens, ?_, by simp [hlexemes]⟩
    rw [tokens_feed_of_ok hnext hword.cases_head.1, htokens]

/-- A lexeme that was read is no longer ahead. -/
theorem length_rest_behind_lt {lexeme : Lexeme} (hrest : c.rest = gap ++ (word ++ rest))
    (hword : lexeme.Spelled word) (kind : Kind) :
    ((advanceBy gap.length c).behind kind word.length).rest.length < c.rest.length := by
  obtain ⟨-, first, others, rfl, -⟩ := hword.cases_head
  rw [rest_behind_lexeme hrest, hrest]
  simp only [List.length_append, List.length_cons]
  omega

/-- A text that is read to its end is made of the lexemes that are read. -/
theorem lexes_of_tokens {c : Cursor} {tokens : List Token} (h : c.feed.tokens = (tokens, none)) :
    ∃ read, lexemes tokens = read ++ [.eof] ∧ Lexes c.last c.rest read := by
  -- Each lexeme that is read leaves fewer characters ahead.
  induction hlength : c.rest.length using Nat.strongRecOn generalizing c tokens with
  | ind length ih =>
    have hends := c.next_ends
    generalize hnext : c.next = reading at hends
    cases hends with
    | eof hgap =>
      rw [tokens_feed_of_eof hnext rfl] at h
      cases h
      exact ⟨[], rfl, .done hgap⟩
    | @lexeme gap word rest first hrest hgap hword hfits hend =>
      rw [tokens_feed_of_ok hnext hword.cases_head.1] at h
      obtain ⟨rfl, hnone⟩ := Prod.mk.inj h
      obtain ⟨more, hmore, hlexes⟩ := ih _ (hlength ▸ length_rest_behind_lt hrest hword _)
        (Prod.ext rfl hnone) rfl
      rw [rest_behind_lexeme hrest] at hlexes
      refine ⟨first :: more, by simp [hmore], ?_⟩
      rw [hrest]
      exact .lexeme hgap hword hfits hend hlexes
    | overlong | stray | tooLarge | unfinished =>
      rw [tokens_feed_of_error hnext] at h
      cases h

/-- A text that is read up to a defect holds a run of digits that is too long. -/
theorem exists_run_of_defect {c : Cursor} {d : Defect} (h : c.feed.tokens.2 = some (.defect d)) :
    ∃ digits, digits <:+: c.rest ∧ (∀ ch ∈ digits, ch.isDigit = true) ∧
      Numeral.maxDigits < digits.length ∧ d = .overlongNumber digits.length := by
  induction hlength : c.rest.length using Nat.strongRecOn generalizing c with
  | ind length ih =>
    have hends := c.next_ends
    generalize hnext : c.next = reading at hends
    cases hends with
    | eof hgap =>
      rw [tokens_feed_of_eof hnext rfl] at h
      cases h
    | @lexeme gap word rest first hrest hgap hword hfits hend =>
      rw [tokens_feed_of_ok hnext hword.cases_head.1] at h
      obtain ⟨digits, hinfix, hrun⟩ :=
        ih _ (hlength ▸ length_rest_behind_lt hrest hword _) h rfl
      rw [rest_behind_lexeme hrest] at hinfix
      refine ⟨digits, hinfix.trans ⟨gap ++ word, [], ?_⟩, hrun⟩
      simp [hrest]
    | @overlong gap digits rest hrest hdigits hlong =>
      rw [tokens_feed_of_error hnext] at h
      cases h
      exact ⟨digits, ⟨gap, rest, by rw [hrest, List.append_assoc]⟩, hdigits, hlong, rfl⟩
    | stray | tooLarge | unfinished =>
      rw [tokens_feed_of_error hnext] at h
      cases h

end Cursor

end LineCalc
