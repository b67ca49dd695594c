import LineCalc.Proofs.Parser.Completeness
import LineCalc.Proofs.Parser.Soundness

/-!
# Parsing a text

A text is parsed to the tree that the grammar gives its tokens, if these are a whole line. If they
are not, the first token with which no line can go on is at fault, or the failure that ends them.
Nothing after that is looked at.

* `parse_eq_ok_iff`: which texts have a tree, and that it is the only one.
* `parse_error_at_first_rejected`: where an error is reported, and which one.
-/

namespace LineCalc

open LineCalc.Grammar LineCalc.Parser

namespace Feed

variable {feed : Feed} {levels : Nat}

/-- A feed that starts with a token is parsed from the first parser on. -/
theorem parse_of_start {p : Parser} (h : Parser.start feed = .ok p) :
    feed.parse levels = ⟨(programWithin levels p).2.drawn.reverse,
      (programWithin levels p).1.mapError ParseError.ofFailure⟩ := by
  rw [parse, h, ← program_eq_programWithin]
  rfl

/-- A feed that starts with a failure is parsed to that failure. -/
theorem parse_of_start_error {failure : Failure ParseError}
    (h : Parser.start feed = .error failure) : feed.parse levels = ⟨[], .error failure⟩ := by
  rw [parse, h]

/-- A feed that holds a whole line is parsed to its tree. -/
theorem parse_of_program (hregular : feed.Regular) {tokens : List Token} {tree : Expr}
    (htokens : feed.tokens.1 = tokens) (hnest : NestsWithin levels tokens)
    (h : Program tokens tree) : (feed.parse levels).result = .ok tree := by
  cases hstart : Parser.start feed with
  | error failure =>
    obtain ⟨cause, -, hempty⟩ := start_error hstart
    obtain ⟨hline, position⟩ := h
    simp [hempty] at htokens
  | ok p =>
    obtain ⟨hp, hahead, -⟩ := start_ok hregular hstart
    have hparse := programWithin_of_program h hp (hahead ▸ htokens) hnest
    rw [parse_of_start hstart, hparse]
    rfl

/-- A feed with a rejected token is parsed to the error of that token, whatever follows it. -/
theorem parse_of_rejects (hregular : feed.Regular) {tokens more : List Token} {found : Token}
    {error : ParseError} (htokens : feed.tokens.1 = tokens ++ found :: more)
    (hnest : NestsWithin levels tokens) (h : ProgramRejects tokens found error) :
    feed.parse levels = ⟨tokens ++ [found], .error (.error error)⟩ := by
  cases hstart : Parser.start feed with
  | error failure =>
    obtain ⟨cause, -, hempty⟩ := start_error hstart
    simp [hempty] at htokens
  | ok p =>
    obtain ⟨hp, hahead, hdrawn⟩ := start_ok hregular hstart
    obtain ⟨q, heats, rfl, hparse⟩ := programWithin_of_rejects h hp (hahead ▸ htokens) hnest
    rw [parse_of_start hstart, hparse, heats.drawn_eq hdrawn, List.append_nil, List.reverse_cons,
      List.reverse_reverse]
    rfl

/-- A feed that is parsed to a tree holds a whole line with that tree. -/
theorem program_of_parse (hregular : feed.Regular) {tree : Expr}
    (h : (feed.parse levels).result = .ok tree) :
    ∃ tokens, feed.tokens = (tokens, none) ∧ Program tokens tree := by
  cases hstart : Parser.start feed with
  | error failure =>
    rw [parse_of_start_error hstart] at h
    cases h
  | ok p =>
    obtain ⟨hp, hahead, -⟩ := start_ok hregular hstart
    have hends := programWithin_ends levels hp
    rw [parse_of_start hstart] at h
    generalize programWithin levels p = result at h hends
    cases hends with
    | rejects | starves | tooDeep => cases h
    | @accepts tokens tree q heats heof hline =>
      cases h
      obtain ⟨position, hcurrent⟩ : ∃ position, q.current = ⟨.eof, position⟩ :=
        exists_position heof (by decide)
      refine ⟨tokens ++ [⟨.eof, position⟩], ?_, .intro hline position⟩
      rw [← hahead, heats.tokens_eq hp.regular, Parser.tokens, if_pos heof, hcurrent]

/-- A feed that is parsed to an error holds a rejected token, or a failure after tokens with which a
line can begin; or it is nested too deeply. -/
theorem parse_error_cases (hregular : feed.Regular) {error : ParseError}
    (h : (feed.parse levels).result = .error (.error error)) :
    (∃ tokens found more, feed.tokens.1 = tokens ++ found :: more ∧
        NestsWithin levels tokens ∧ ProgramRejects tokens found error) ∨
      (∃ e, error = .lexical e ∧ feed.tokens = ((feed.parse levels).tokens, some (.error e)) ∧
        Viable (feed.parse levels).tokens) ∨
      error = .tooDeep := by
  cases hstart : Parser.start feed with
  | error failure =>
    obtain ⟨cause, rfl, hempty⟩ := start_error hstart
    rw [parse_of_start_error hstart] at h ⊢
    cases cause with
    | defect d => cases h
    | error e =>
      cases h
      exact .inr (.inl ⟨e, rfl, hempty, Begins.expr_nil.bare.viable⟩)
  | ok p =>
    obtain ⟨hp, hahead, hdrawn⟩ := start_ok hregular hstart
    have hends := programWithin_ends levels hp
    rw [parse_of_start hstart] at h ⊢
    generalize programWithin levels p = result at h hends ⊢
    cases hends with
    | accepts => cases h
    | tooDeep =>
      cases h
      exact .inr (.inr rfl)
    | @rejects tokens _ q heats hnest hrejects =>
      cases h
      obtain ⟨more, hmore⟩ := q.exists_tokens_eq
      refine .inl ⟨tokens, q.current, more, ?_, hnest, hrejects⟩
      rw [← hahead, heats.tokens_eq hp.regular, hmore]
    | @starves tokens failure q after heats hcurrent hnext hviable hafter =>
      have hreverse : after.drawn.reverse = tokens ++ [q.current] := by
        simp [hafter, heats.drawn_eq hdrawn]
      cases failure with
      | error e =>
        cases h
        refine .inr (.inl ⟨e, rfl, ?_, hreverse ▸ hviable⟩)
        rw [hreverse, ← hahead, heats.tokens_eq hp.regular,
          tokens_of_advance_error hcurrent hnext]
      | defect d =>
        -- Of the defects only too deep a nesting is reported as an error.
        cases d <;> cases h
        exact .inr (.inr rfl)

/-- A feed that is parsed to a defect holds that defect after its tokens. -/
theorem tokens_of_parse_defect (hregular : feed.Regular) {d : Defect}
    (h : (feed.parse levels).result = .error (.defect d)) : feed.tokens.2 = some (.defect d) := by
  cases hstart : Parser.start feed with
  | error failure =>
    obtain ⟨cause, rfl, hempty⟩ := start_error hstart
    rw [parse_of_start_error hstart] at h
    cases cause with
    | error e => cases h
    | defect d =>
      cases h
      rw [hempty]
  | ok p =>
    obtain ⟨hp, hahead, -⟩ := start_ok hregular hstart
    have hends := programWithin_ends levels hp
    rw [parse_of_start hstart] at h
    generalize programWithin levels p = result at h hends
    cases hends with
    | accepts | rejects | tooDeep => cases h
    | @starves tokens failure q after heats hcurrent hnext hviable hafter =>
      have htokens : feed.tokens.2 = some failure := by
        rw [← hahead, heats.tokens_eq hp.regular, tokens_of_advance_error hcurrent hnext]
      cases failure with
      | error e => cases h
      | defect cause =>
        -- The one defect that would be reported is not among those of a feed.
        cases cause <;> cases h <;> exact htokens

/-- A feed that holds a whole line is parsed to its tree, unless it is nested too deeply. -/
theorem parse_of_program_or_tooDeep (hregular : feed.Regular) {tokens : List Token} {tree : Expr}
    (htokens : feed.tokens = (tokens, none)) (h : Program tokens tree) :
    (feed.parse levels).result = .ok tree ∨
      (feed.parse levels).result = .error (.error .tooDeep) := by
  cases hresult : (feed.parse levels).result with
  | ok other =>
    obtain ⟨others, hothers, hother⟩ := program_of_parse hregular hresult
    obtain rfl : tokens = others := congrArg Prod.fst (htokens.symm.trans hothers)
    rw [h.unique hother]
    exact .inl rfl
  | error failure =>
    cases failure with
    | defect d =>
      have hdefect := tokens_of_parse_defect hregular hresult
      rw [htokens] at hdefect
      cases hdefect
    | error error =>
      rcases parse_error_cases hregular hresult with
        ⟨front, found, more, hfront, -, hrejects⟩ | ⟨e, -, hlexical, -⟩ | rfl
      · -- The tokens are a whole line, so no line is rejected before their end.
        rw [htokens] at hfront
        refine absurd ⟨more, tree, ?_⟩ hrejects.not_viable
        rw [List.append_assoc]
        exact hfront ▸ h
      · rw [htokens] at hlexical
        cases hlexical
      · exact .inr rfl

end Feed

/-- What can be read from a text is regular. -/
theorem Feed.ofText_regular (text : String) : (Feed.ofText text).Regular :=
  Cursor.feed_regular _

/-- A text whose parentheses keep to the limit has a tree exactly if all of it can be read as tokens
that are a whole line with that tree. No tokens are a whole line with two trees. -/
theorem parse_eq_ok_iff {levels : Nat} (text : String)
    (hnest : NestsWithin levels (Feed.ofText text).tokens.1) :
    (∀ tree, (parse levels text).result = .ok tree ↔
        ∃ tokens, (Feed.ofText text).tokens = (tokens, none) ∧ Program tokens tree) ∧
      ∀ tokens tree other, Program tokens tree → Program tokens other → tree = other := by
  have hregular := Feed.ofText_regular text
  refine ⟨fun tree => ⟨fun h => Feed.program_of_parse hregular h, ?_⟩, fun _ _ _ h => h.unique⟩
  rintro ⟨tokens, htokens, hprogram⟩
  rw [htokens] at hnest
  exact Feed.parse_of_program hregular (congrArg Prod.fst htokens) hnest hprogram

/-- A difference in parentheses, after `print`, whose second operand is the least word. -/
theorem parse_eq_ok_iff_print :
    let text := "print (8--2147483648)"
    let tokens : List Token := [⟨.print, ⟨1, 1⟩⟩, ⟨.lparen, ⟨1, 7⟩⟩, ⟨.integer 8, ⟨1, 8⟩⟩,
      ⟨.op .sub, ⟨1, 9⟩⟩, ⟨.op .sub, ⟨1, 10⟩⟩, ⟨.integer 2147483648, ⟨1, 11⟩⟩, ⟨.rparen, ⟨1, 21⟩⟩,
      ⟨.eof, ⟨1, 22⟩⟩]
    let tree : Expr := .print (some ⟨1, 1⟩) (.binary (.num ⟨8, 8, some ⟨1, 8⟩⟩)
      ⟨.sub, .text "-", some ⟨1, 9⟩⟩ (.num ⟨2147483648, -2147483648, some ⟨1, 11⟩⟩))
    NestsWithin 200 (Feed.ofText text).tokens.1 ∧
      (Feed.ofText text).tokens = (tokens, none) ∧ Program tokens tree ∧
      (parse 200 text).result = .ok tree := by
  intro text tokens tree
  have htokens : (Feed.ofText text).tokens = (tokens, none) := by decide +kernel
  have hnest : NestsWithin 200 (Feed.ofText text).tokens.1 := by
    simp [htokens, tokens]
  have height : Derives .factor [⟨.integer 8, ⟨1, 8⟩⟩] (.num ⟨8, 8, some ⟨1, 8⟩⟩) :=
    .number (by decide) ⟨1, 8⟩
  have hleast := Derives.negated 2147483648 ⟨1, 10⟩ ⟨1, 11⟩
  have hleft : Derives .term _ _ := Derives.single height
  have hright : Derives .term _ _ := Derives.single hleast
  have hdifference : Derives .expr _ _ :=
    Derives.chain hleft (@Derives.link _ .sub _ _ _ _ _ ⟨1, 9⟩ rfl hright (.done _ _))
  have hgroup : Derives .term _ _ := Derives.single (hdifference.group ⟨1, 7⟩ ⟨1, 21⟩)
  have hexpr : Derives .expr _ _ := Derives.single hgroup
  have hprogram : Program tokens tree := .intro (hexpr.print ⟨1, 1⟩) ⟨1, 22⟩
  exact ⟨hnest, htokens, hprogram,
    ((parse_eq_ok_iff text hnest).1 tree).2 ⟨tokens, htokens, hprogram⟩⟩

/-- An error that names a token names the first one with which no whole line can go on. That token
is the last one drawn, it is trailing exactly if the line could have ended before it, and a text
with the same tokens up to there is parsed to the same. A lexical error is that of the feed, after
tokens with which a whole line can begin. -/
theorem parse_error_at_first_rejected {levels : Nat} {text : String} {error : ParseError}
    (h : (parse levels text).result = .error (.error error)) :
    (∀ found, error.found = some found →
        ∃ k, (Feed.ofText text).tokens.1[k]? = some found ∧
          (parse levels text).tokens = (Feed.ofText text).tokens.1.take (k + 1) ∧
          Viable ((Feed.ofText text).tokens.1.take k) ∧
          ¬Viable ((Feed.ofText text).tokens.1.take (k + 1)) ∧
          (∀ position, error.code = .trailingInput ↔
            ∃ tree, Program ((Feed.ofText text).tokens.1.take k ++ [⟨.eof, position⟩]) tree) ∧
          ∀ other : String, (Feed.ofText other).tokens.1.take (k + 1) =
              (Feed.ofText text).tokens.1.take (k + 1) → parse levels other = parse levels text) ∧
      ∀ e, error = .lexical e →
        (Feed.ofText text).tokens = ((parse levels text).tokens, some (.error e)) ∧
          Viable (parse levels text).tokens := by
  have hregular := Feed.ofText_regular text
  rcases Feed.parse_error_cases hregular h with
    ⟨tokens, found, more, htokens, hnest, hrejects⟩ | ⟨e, rfl, htokens, hviable⟩ | rfl
  · refine ⟨fun named hnamed => ?_, ?_⟩
    · obtain rfl : found = named := Option.some.inj (hrejects.found_eq.symm.trans hnamed)
      -- The named token comes after the tokens that were eaten, so their number is its index.
      have htake : (Feed.ofText text).tokens.1.take (tokens.length + 1) = tokens ++ [found] := by
        rw [htokens, List.append_cons]
        exact List.take_left' (by simp)
      have hparse := Feed.parse_of_rejects hregular htokens hnest hrejects
      refine ⟨tokens.length, by simp [htokens], ?_, ?_, ?_, ?_, ?_⟩
      · rw [htake]
        exact congrArg Parsed.tokens hparse
      · rw [htokens, List.take_left]
        exact hrejects.viable
      · rw [htake]
        exact hrejects.not_viable
      · rw [htokens, List.take_left]
        exact hrejects.trailingInput_iff
      · -- The other text has the same tokens up to the rejected one, and nothing else counts.
        intro other hother
        have hsplit : (Feed.ofText other).tokens.1 = tokens ++ found ::
            (Feed.ofText other).tokens.1.drop (tokens.length + 1) := by
          rw [List.append_cons, ← htake, ← hother, List.take_append_drop]
        exact (Feed.parse_of_rejects (Feed.ofText_regular other) hsplit hnest hrejects).trans
          hparse.symm
    · rintro e rfl
      cases hrejects.found_eq
  · refine ⟨fun found hfound => ?_, fun cause hcause => ?_⟩
    · cases hfound
    · cases hcause
      exact ⟨htokens, hviable⟩
  · refine ⟨fun found hfound => ?_, fun cause hcause => ?_⟩
    · cases hfound
    · cases hcause

/-- A second number after a complete line: the text may as well go on in another way behind it. -/
theorem parse_error_at_first_rejected_number :
    let found : Token := ⟨.integer 2, ⟨1, 3⟩⟩
    (parse 200 "1 2").result = .error (.error (.trailingInput found)) ∧
      ¬Viable [⟨.integer 1, ⟨1, 1⟩⟩, found] ∧ parse 200 "1 2 ?" = parse 200 "1 2" := by
  intro found
  have htokens : (Feed.ofText "1 2").tokens.1 =
      [⟨.integer 1, ⟨1, 1⟩⟩, found, ⟨.eof, ⟨1, 4⟩⟩] := by decide +kernel
  have hother : (Feed.ofText "1 2 ?").tokens.1 = [⟨.integer 1, ⟨1, 1⟩⟩, found] := by decide +kernel
  have hone : Derives .factor [⟨.integer 1, ⟨1, 1⟩⟩] (.num ⟨1, 1, some ⟨1, 1⟩⟩) :=
    .number (by decide) ⟨1, 1⟩
  have hterm : Derives .term _ _ := Derives.single hone
  have hrejects : ProgramRejects [⟨.integer 1, ⟨1, 1⟩⟩] found (.trailingInput found) := by
    refine .trailing (.bare (Derives.single hterm)) ?_ (by decide)
    rintro ⟨op, hop⟩
    cases hop
  have hparse : (parse 200 "1 2").result = .error (.error (.trailingInput found)) :=
    congrArg Parsed.result
      (Feed.parse_of_rejects (Feed.ofText_regular _) htokens (by simp) hrejects)
  obtain ⟨k, hfound, -, -, hnot, -, hsame⟩ :=
    (parse_error_at_first_rejected hparse).1 found rfl
  rw [htokens] at hfound hnot hsame
  obtain rfl : k = 1 := by
    rcases k with _ | _ | _ | k
    · simp [found] at hfound
    · rfl
    · simp [found] at hfound
    · simp at hfound
  exact ⟨hparse, hnot, hsame _ (by rw [hother]; rfl)⟩

end LineCalc
