import LineCalc.Line
import LineCalc.Proofs.Cursor.Gaps

/-!
# Gaps between tokens

A gap may be put in behind any token of a text, or before the first one. The same lexemes are read
then, at other places. From these the same tree is made, which runs as before, because the places of
a tree show in its errors only.

* `Feed.tokens_alike`: feeds that differ in places hold the same lexemes and end alike.
* `Transcript.Alike`: runs that differ in the places of their errors at most.
* `Expr.run_relocate`, `Parsed.run_alike`: trees that differ in places are run alike.
* `spaced_alike`: a text with a gap put in is read, parsed and run alike.
-/

namespace LineCalc

/-! ### The same tokens -/

section Relocated

variable {f : Position → Position}

theorem leadingTokens_relocate (outcomes : List Outcome) (seen : List Token) :
    leadingTokens (outcomes.map (Outcome.relocate f)) (seen.map (Token.relocate f)) =
      ((leadingTokens outcomes seen).1.map (Token.relocate f),
        (leadingTokens outcomes seen).2.map (·.map (LexError.relocate f))) := by
  induction outcomes generalizing seen with
  | nil => simp [leadingTokens]
  | cons outcome outcomes ih =>
    cases outcome with
    | ok token => exact ih (token :: seen)
    | error failure => simp [leadingTokens, Outcome.relocate]

theorem Feed.tokens_relocate (feed : Feed) :
    (feed.relocate f).tokens =
      (feed.tokens.1.map (Token.relocate f), feed.tokens.2.map (·.map (LexError.relocate f))) := by
  have houtcomes : (feed.relocate f).pending ++ [(feed.relocate f).final] =
      (feed.pending ++ [feed.final]).map (Outcome.relocate f) := by simp [relocate]
  rw [tokens, houtcomes]
  exact leadingTokens_relocate _ []

/-- Feeds that differ in places only hold the same lexemes and end alike. -/
theorem Feed.tokens_alike {feed feed' : Feed} (h : feed.relocate f = feed'.relocate f) :
    lexemes feed.tokens.1 = lexemes feed'.tokens.1 ∧
      feed.tokens.2.map (·.map fun e => (e.code, e.found, e.expected)) =
        feed'.tokens.2.map (·.map fun e => (e.code, e.found, e.expected)) := by
  have hlexemes (tokens : List Token) : lexemes (tokens.map (Token.relocate f)) = lexemes tokens :=
    List.map_map
  have hends (failure : Option (Failure LexError)) :
      (failure.map (·.map (LexError.relocate f))).map
          (·.map fun e => (e.code, e.found, e.expected)) =
        failure.map (·.map fun e => (e.code, e.found, e.expected)) := by
    rcases failure with _ | (e | d) <;> rfl
  have htokens := congrArg Feed.tokens h
  rw [tokens_relocate, tokens_relocate] at htokens
  obtain ⟨hfirst, hlast⟩ := Prod.mk.inj htokens
  exact ⟨by rw [← hlexemes, hfirst, hlexemes], by rw [← hends, hlast, hends]⟩

end Relocated

/-! ### The same runs -/

/-- The report without its place. -/
def Report.unplaced (r : Report) : Report := { r with position := none }

namespace Transcript

/-- How a run ended, without the place of an error. -/
def ending (t : Transcript) : Except (Failure Report) Int :=
  t.outcome.mapError (·.map (·.report.unplaced))

/-- Two runs with the same output and the same value, or errors that differ in their places only. -/
structure Alike (t u : Transcript) : Prop where
  stdout : t.stdout = u.stdout
  stderr : t.stderr = u.stderr
  page : t.page = u.page
  ending : t.ending = u.ending

variable {t u v : Transcript}

theorem Alike.refl (t : Transcript) : t.Alike t := ⟨rfl, rfl, rfl, rfl⟩

theorem Alike.symm (h : t.Alike u) : u.Alike t :=
  ⟨h.stdout.symm, h.stderr.symm, h.page.symm, h.ending.symm⟩

theorem Alike.trans (h : t.Alike u) (h' : u.Alike v) : t.Alike v :=
  ⟨h.stdout.trans h'.stdout, h.stderr.trans h'.stderr, h.page.trans h'.page,
    h.ending.trans h'.ending⟩

/-- Only the outcome changes when too deep a nesting is reported. -/
theorem reportDepth_eq (t : Transcript) (error : LineError) :
    t.reportDepth error = { t with outcome := (t.reportDepth error).outcome } := by
  unfold reportDepth
  split <;> rfl

/-- How the run ended before tells how it ends with too deep a nesting reported. -/
theorem ending_reportDepth (t : Transcript) (error : LineError) :
    (t.reportDepth error).ending =
      match t.ending with
      | .error (.defect .tooDeep) => .error (.error error.report.unplaced)
      | ending => ending := by
  obtain ⟨stdout, stderr, page, outcome⟩ := t
  rcases outcome with (e | d) | v
  · rfl
  · cases d <;> rfl
  · rfl

theorem Alike.reportDepth (h : t.Alike u) (error : LineError) :
    (t.reportDepth error).Alike (u.reportDepth error) := by
  have hending : (t.reportDepth error).ending = (u.reportDepth error).ending := by
    rw [ending_reportDepth, ending_reportDepth, h.ending]
  rw [reportDepth_eq t, reportDepth_eq u]
  exact ⟨h.stdout, h.stderr, h.page, hending⟩

end Transcript

namespace Expr

variable [Platform] {f : Position → Position}

theorem interpret_relocate (e : Expr) : (e.relocate f).interpret.Alike e.interpret := by
  have heval : (e.relocate f).eval.unplaced = e.eval.unplaced :=
    evalWithin_relabel (Relabeling.relocation_keepsMeaning f) walkLimit e
  have hending (e : Expr) : e.interpret.ending =
      e.eval.unplaced.outcome.mapError (·.map (·.report)) := by
    unfold interpret
    obtain ⟨printed, outcome⟩ := e.eval
    rcases outcome with (e | d) | v <;> rfl
  refine ⟨?_, rfl, rfl, by rw [hending, heval, hending]⟩
  exact congrArg (printedText ·.printed) heval

theorem runNative_relocate (e : Expr) (name : String) (logCode : Bool) :
    (e.relocate f).runNative name logCode = e.runNative name logCode := by
  have hemit : (e.relocate f).emit = e.emit :=
    emitWithin_relabel (Relabeling.relocation_keepsMeaning f) walkLimit e
  have hcompile : (e.relocate f).compile name = e.compile name := by
    rw [compile, emitRoutine, hemit]
    rfl
  rw [runNative, hcompile, runNative]

theorem page_relocate (e : Expr) (host : ScriptHost) : (e.relocate f).page host = e.page host := by
  have hchart : (e.relocate f).chart = e.chart :=
    chartWithin_relabel (Relabeling.relocation_keepsNames f) walkLimit e
  rw [page, hchart, page]

/-- A tree at other places is run alike, on both backends. -/
theorem run_relocate (e : Expr) (settings : Settings) (backend : Backend) :
    ((e.relocate f).run settings backend).Alike (e.run settings backend) := by
  have hrunOn : ((e.relocate f).runOn backend settings.logCode).Alike
      (e.runOn backend settings.logCode) := by
    cases backend with
    | interpreter => exact (interpret_relocate e).reportDepth _
    | native =>
      rw [runOn, runNative_relocate]
      exact .refl _
  rw [run, run, page_relocate]
  split
  · cases e.page settings.host with
    | error defect => exact .refl _
    | ok page => exact ⟨hrunOn.stdout, hrunOn.stderr, rfl, hrunOn.ending⟩
  · exact hrunOn

end Expr

/-- How a text ends that is no program does not depend on places. -/
theorem Transcript.ending_fail (f : Position → Position) (failure : Failure ParseError) :
    (fail (failure.map .parse)).ending =
      .error ((failure.map (ParseError.relocate f)).map (·.report.unplaced)) := by
  rcases failure with e | d
  · cases e <;> rfl
  · rfl

/-- What was parsed at other places is run alike, after the listing of its own tokens. -/
theorem Parsed.run_alike [Platform] {f : Position → Position} {p q : Parsed}
    (h : p.relocate f = q.relocate f) (settings : Settings) (backend : Backend) :
    ∃ t u : Transcript, t.Alike u ∧
      p.run settings (·.run settings backend) = t.after (settings.listing p.tokens) ∧
      q.run settings (·.run settings backend) = u.after (settings.listing q.tokens) := by
  obtain ⟨tokens, result⟩ := p
  obtain ⟨tokens', result'⟩ := q
  have hresult := congrArg Parsed.result h
  cases result with
  | ok tree =>
    cases result' with
    | error => cases hresult
    | ok tree' =>
      have htree : tree.relocate f = tree'.relocate f := Except.ok.inj hresult
      refine ⟨tree.run settings backend, tree'.run settings backend, ?_, rfl, rfl⟩
      have hmoved := tree.run_relocate (f := f) settings backend
      rw [htree] at hmoved
      exact hmoved.symm.trans (tree'.run_relocate settings backend)
  | error failure =>
    cases result' with
    | ok => cases hresult
    | error failure' =>
      have hfailure : failure.map (ParseError.relocate f) =
          failure'.map (ParseError.relocate f) := Except.error.inj hresult
      refine ⟨.fail (failure.map .parse), .fail (failure'.map .parse), ⟨rfl, rfl, rfl, ?_⟩,
        rfl, rfl⟩
      rw [Transcript.ending_fail f, Transcript.ending_fail f, hfailure]

/-! ### The same for a text with a gap put in -/

/-- The text with a gap put in at an offset. -/
def spacedAt (text : String) (offset : Nat) (gap : String) : String :=
  String.ofList (text.toList.take offset ++ (gap.toList ++ text.toList.drop offset))

/-- A gap behind the first tokens of a text, or before all of them, does not matter. The same
lexemes are read, and the readings end alike: at the end of the text, or in the same failure. The
same tree is made, or the same error, but for the places. And the run has the same value, the same
output behind the listing of the tokens, or an error with the same report but for its place. -/
theorem spaced_alike [Platform] {text gap : String} {count : Nat}
    (hread : (Cursor.ofText text).ReadsTokens count)
    (hgap : ∀ ch ∈ gap.toList, Text.isGap ch = true) :
    let spaced := spacedAt text
      ((Cursor.ofText text).performAll (List.replicate count .next)).offset gap
    lexemes (Feed.ofText spaced).tokens.1 = lexemes (Feed.ofText text).tokens.1 ∧
      (Feed.ofText spaced).tokens.2.map (·.map fun e => (e.code, e.found, e.expected)) =
        (Feed.ofText text).tokens.2.map (·.map fun e => (e.code, e.found, e.expected)) ∧
      (∀ levels, (parse levels spaced).relocate .forget = (parse levels text).relocate .forget) ∧
      ∀ settings backend, ∃ t u : Transcript, t.Alike u ∧
        runLine spaced settings backend =
          t.after (settings.listing (settings.parse spaced).tokens) ∧
        runLine text settings backend =
          u.after (settings.listing (settings.parse text).tokens) := by
  intro spaced
  -- The cursor behind the tokens has the characters from its offset on ahead.
  have hahead := (Cursor.standsIn_performAll text (List.replicate count .next)).rest_eq
  have hlacks : (Cursor.ofText text).LacksGap gap.toList (text.toList.drop _)
      (Cursor.ofText spaced) :=
    ⟨⟨text.toList.take _, (List.take_append_drop _ _).symm, String.toList_ofList⟩, rfl⟩
  have hfeed : (Feed.ofText spaced).relocate .forget = (Feed.ofText text).relocate .forget :=
    (hlacks.feed hgap hread hahead).symm
  have hparse (levels : Nat) :
      (parse levels spaced).relocate .forget = (parse levels text).relocate .forget := by
    rw [parse, parse, ← Feed.parse_relocate, hfeed, Feed.parse_relocate]
  obtain ⟨hlexemes, hends⟩ := Feed.tokens_alike hfeed
  exact ⟨hlexemes, hends, hparse, fun settings => Parsed.run_alike (hparse _) settings⟩

open scoped Platform in
/-- A gap between a minus and the least word behind it. The number is still read as the magnitude of
a negative one. -/
theorem spaced_alike_least :
    (∀ levels, (parse levels "1--\n\t2147483648").relocate .forget =
        (parse levels "1--2147483648").relocate .forget) ∧
      ∀ backend, (runLine "1--\n\t2147483648" {} backend).ending = .ok (-2147483647) := by
  have hread : (Cursor.ofText "1--2147483648").ReadsTokens 3 := by
    let tokens : List Token := [⟨.integer 1, ⟨1, 1⟩⟩, ⟨.op .sub, ⟨1, 2⟩⟩, ⟨.op .sub, ⟨1, 3⟩⟩]
    have htokens : ∀ i < 3, ∃ token ∈ tokens,
        ((Cursor.ofText "1--2147483648").performAll (List.replicate i .next)).next.1 = .ok token ∧
          token.kind ≠ .eof := by
      decide +kernel
    exact fun i hi => (htokens i hi).imp fun _ h => h.2
  have hgap : ∀ ch ∈ "\n\t".toList, Text.isGap ch = true :=
    List.all_eq_true.1 (by decide)
  have hspaced : spacedAt "1--2147483648" ((Cursor.ofText "1--2147483648").performAll
      (List.replicate 3 .next)).offset "\n\t" = "1--\n\t2147483648" := by
    decide +kernel
  have halike := spaced_alike hread hgap
  dsimp only at halike
  rw [hspaced] at halike
  obtain ⟨-, -, hparse, hrun⟩ := halike
  refine ⟨hparse, fun backend => ?_⟩
  have htext : (runLine "1--2147483648" {} backend).ending = .ok (-2147483647) := by
    cases backend <;> decide +kernel
  obtain ⟨t, u, halike, ht, hu⟩ := hrun {} backend
  rw [hu] at htext
  rw [ht]
  exact halike.ending.trans htext

end LineCalc
