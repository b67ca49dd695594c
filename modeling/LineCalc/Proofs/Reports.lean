import LineCalc.CommandLine.Session
import LineCalc.Proofs.Running

/-!
# What a line reports

A line without a display has a value, or it reports an error of one of the stages. The one exception
is a run of digits that is too long to be converted: it is no error of the line, and it ends a
session. Lines without such a run are all answered, whatever else is wrong with them.

* `reportable`: the stages and codes of the errors of a line.
* `runLine_reported_or_overlong`: every line ends in one of these ways.
* `CommandLine.session_append`: lines that are answered change nothing for those after them.
* `CommandLine.session_of_answered`: a session that answers every line reads them all.
* `CommandLine.reports_every_failure`: what texts without too long a run end with.
-/

namespace LineCalc

/-! ### Errors of a line -/

/-- The stages and codes that the errors of a line are reported with. -/
def reportable : List (Stage × ErrorCode) := [
  (.parser, .unexpectedToken), (.parser, .trailingInput), (.parser, .lexicalError),
  (.parser, .malformedNumber), (.parser, .nestingTooDeep),
  (.interpreter, .divisionByZero), (.interpreter, .divisionOverflow),
  (.interpreter, .nestingTooDeep),
  (.compiler, .nativeBackendFailure), (.compiler, .nestingTooDeep)]

/-- Every error of a line is reported with one of them. -/
theorem LineError.report_mem_reportable (e : LineError) :
    (e.report.stage, e.report.code) ∈ reportable := by
  cases e with
  | parse e =>
    cases e <;> simp [LineError.report, ParseError.report, ParseError.code, reportable]
  | arithmetic e =>
    obtain ⟨fault, position⟩ := e
    cases fault <;> simp [LineError.report, ArithmeticError.report, Fault.code, reportable]
  | evaluationTooDeep | compilationTooDeep | backendFailure => decide

/-- The run has a value, or it ended with an error that is reported. -/
def Transcript.Reported (t : Transcript) : Prop :=
  (∃ v, t.outcome = .ok v) ∨
    ∃ e, t.outcome = .error (.error e) ∧ (e.report.stage, e.report.code) ∈ reportable

theorem Transcript.Reported.of_error {t : Transcript} {e : LineError}
    (h : t.outcome = .error (.error e)) : t.Reported :=
  .inr ⟨e, h, e.report_mem_reportable⟩

/-! ### Lines -/

/-- Every line without a display has a value, reports an error, or holds a run of digits that is too
long and ends with that. -/
theorem runLine_reported_or_overlong [Platform] {settings : Settings}
    (hdisplay : settings.display = false)
    (text : String) (backend : Backend) :
    (runLine text settings backend).Reported ∨
      ∃ digits, digits <:+: text.toList ∧ IsOverlong digits ∧
        (runLine text settings backend).outcome =
          .error (.defect (.overlongNumber digits.length)) := by
  cases hresult : (settings.parse text).result with
  | error failure =>
    have houtcome := outcome_runLine_of_error hresult backend
    cases failure with
    | error e => exact .inl (.of_error houtcome)
    | defect d =>
      -- The defect is that of the text, and it has only one.
      have hdefect := Feed.tokens_of_parse_defect (Feed.ofText_regular text) hresult
      obtain ⟨digits, hinfix, hdigits, hlength, rfl⟩ := Cursor.exists_run_of_defect hdefect
      exact .inr ⟨digits, hinfix, ⟨hdigits, hlength⟩, houtcome⟩
  | ok tree =>
    left
    rcases runLine_ends hresult backend with hends | ⟨hshown, -⟩
    swap
    · rw [hdisplay] at hshown
      cases hshown
    generalize houtcome : (runLine text settings backend).outcome = outcome at hends
    cases hends with
    | value h => exact .inl ⟨_, houtcome⟩
    | fault h position => exact .of_error houtcome
    | tooDeep => exact .of_error houtcome

/-- A text whose first token cannot be read fails with that. -/
theorem parse_of_next_error {text : String} {failure : Failure LexError} {after : Cursor}
    (h : (Cursor.ofText text).next = (.error failure, after)) (levels : Nat) :
    (parse levels text).result = .error (failure.map .lexical) := by
  -- The feed may end there or go on, but the parser stops at its first outcome.
  have hnext : ∃ rest, (Feed.ofText text).next = (.error failure, rest) := by
    rw [Feed.ofText, Cursor.feed, h]
    split
    · exact ⟨_, rfl⟩
    · exact ⟨_, rfl⟩
  obtain ⟨rest, hnext⟩ := hnext
  have hstart : Parser.start (Feed.ofText text) = .error (failure.map .lexical) := by
    rw [Parser.start, hnext]
  rw [parse, Feed.parse_of_start_error hstart]

/-- A text of too many digits ends with that, on either backend. -/
theorem outcome_runLine_of_overlong [Platform] {digits : List Char} (h : IsOverlong digits)
    (settings : Settings) (backend : Backend) :
    (runLine (String.ofList digits) settings backend).outcome =
      .error (.defect (.overlongNumber digits.length)) := by
  have hrest : (Cursor.ofText (String.ofList digits)).rest = digits ++ [] := by
    simp [Cursor.ofText, Cursor.ofChars]
  have hnext := Cursor.next_of_overlong hrest h.1 (by simp) h.2
  exact outcome_runLine_of_error (parse_of_next_error hnext _) backend

/-! ### Answers -/

namespace CommandLine

section

variable [Platform] {settings : Settings} {backend : Backend}

/-- A line that has a value shows what it wrote, and its status is good. -/
theorem evaluate_of_ok {text : String} {v : Int}
    (h : (runLine text settings backend).outcome = .ok v) :
    (evaluate text settings backend).stdout = (runLine text settings backend).stdout ∧
      (evaluate text settings backend).outcome = .ok 0 := by
  rw [evaluate, h]
  exact ⟨rfl, rfl⟩

/-- A line that reports an error shows what it wrote and then the error, and its status is bad. -/
theorem evaluate_of_error {text : String} {e : LineError}
    (h : (runLine text settings backend).outcome = .error (.error e)) :
    (evaluate text settings backend).stdout =
        (runLine text settings backend).stdout ++ errorLine e ∧
      (evaluate text settings backend).outcome = .ok 1 := by
  rw [evaluate, h]
  exact ⟨rfl, rfl⟩

/-- A line that has a value or reports an error is answered with a status. -/
theorem evaluate_of_reported {text : String} (h : (runLine text settings backend).Reported) :
    ∃ status ≤ 1, (evaluate text settings backend).outcome = .ok status := by
  rcases h with ⟨v, h⟩ | ⟨e, h, -⟩
  · exact ⟨0, by decide, (evaluate_of_ok h).2⟩
  · exact ⟨1, by decide, (evaluate_of_error h).2⟩

/-- Lines that are all answered with a status leave nothing behind: the lines after them are
answered as in a session of their own. -/
theorem session_append {lines : List String}
    (h : ∀ line ∈ lines, ∃ status, (answer line settings backend).outcome = .ok status)
    (later : List String) :
    (session settings backend (lines ++ later)).outcome =
        (session settings backend later).outcome ∧
      (session settings backend (lines ++ later)).stdout =
        String.join (lines.map fun line => prompt ++ (answer line settings backend).stdout) ++
          (session settings backend later).stdout ∧
      (session settings backend (lines ++ later)).stderr =
        String.join (lines.map fun line => (answer line settings backend).stderr) ++
          (session settings backend later).stderr := by
  induction lines with
  | nil => simp
  | cons line rest ih =>
    obtain ⟨⟨status, hstatus⟩, hrest⟩ := List.forall_mem_cons.1 h
    obtain ⟨houtcome, hstdout, hstderr⟩ := ih hrest
    rw [List.cons_append, session, hstatus]
    refine ⟨houtcome, ?_, ?_⟩
    · simp [hstdout, String.append_assoc]
    · simp [hstderr, String.append_assoc]

/-- A session in which every line is answered with a status reads all of them: it asks for each one,
shows its answer, and asks once more before it ends well. -/
theorem session_of_answered {lines : List String}
    (h : ∀ line ∈ lines, ∃ status, (answer line settings backend).outcome = .ok status) :
    (session settings backend lines).outcome = .ok 0 ∧
      (session settings backend lines).stdout =
        String.join (lines.map fun line => prompt ++ (answer line settings backend).stdout) ++
          prompt := by
  have happend := session_append h []
  rw [List.append_nil] at happend
  exact ⟨happend.1, happend.2.1⟩

/-- Without a display, a text whose runs of digits are not too long has a value or reports an error,
a single line is answered with a status, and a session over such lines reads all of them and ends
well. -/
theorem reports_every_failure (hdisplay : settings.display = false) (backend : Backend) :
    (∀ text, (runLine text settings backend).Reported ∨
        ∃ digits, digits <:+: text.toList ∧ IsOverlong digits ∧
          (runLine text settings backend).outcome =
            .error (.defect (.overlongNumber digits.length))) ∧
      (∀ text, DigitRunsFit text → (runLine text settings backend).Reported ∧
        ∃ status ≤ 1, (evaluate text settings backend).outcome = .ok status) ∧
      ∀ lines, (∀ line ∈ lines, DigitRunsFit line) →
        (session settings backend lines).outcome = .ok 0 ∧
          (session settings backend lines).stdout =
            String.join (lines.map fun line => prompt ++ (answer line settings backend).stdout) ++
              prompt := by
  have hreported (text : String) (hfit : DigitRunsFit text) :
      (runLine text settings backend).Reported := by
    rcases runLine_reported_or_overlong hdisplay text backend with h | ⟨digits, hinfix, hlong, -⟩
    · exact h
    · exact absurd hlong (hfit digits hinfix)
  refine ⟨fun text => runLine_reported_or_overlong hdisplay text backend,
    fun text hfit => ⟨hreported text hfit, evaluate_of_reported (hreported text hfit)⟩,
    fun lines hfit => session_of_answered fun line hmem => ?_⟩
  -- A blank line is answered without being run.
  rw [answer]
  split
  · exact ⟨0, rfl⟩
  · obtain ⟨status, -, hstatus⟩ := evaluate_of_reported (hreported line (hfit line hmem))
    exact ⟨status, hstatus⟩

end

open scoped Platform in
/-- A session with a fault, a blank line and a syntax error goes on to the last line. -/
theorem reports_every_failure_session :
    let lines := ["1/0", " ", "(1", "print 7/2"]
    (∀ line ∈ lines, DigitRunsFit line) ∧ (session {} .native lines).outcome = .ok 0 ∧
      (session {} .native lines).stdout = "calc> InterpreterError: division by zero\n" ++
        "calc> calc> ParserError: <1:3>: token `EOF` is not expected, want `)`\n" ++
        "calc> 3\ncalc> " := by
  intro lines
  have hfit : ∀ line ∈ lines, DigitRunsFit line := by
    have hlength : ∀ line ∈ lines, line.toList.length ≤ Numeral.maxDigits := by decide
    exact fun line hmem => digitRunsFit_of_length_le (hlength line hmem)
  obtain ⟨houtcome, hstdout⟩ :=
    (@reports_every_failure Platform.standard {} rfl .native).2.2 lines hfit
  exact ⟨hfit, houtcome, hstdout.trans (by decide +kernel)⟩

open scoped Platform in
/-- A number of 4301 digits is no error that is reported, and nothing answers its line. -/
theorem overlong_number_unreported :
    let text := String.ofList (List.replicate 4301 '1')
    ¬(runLine text {} .interpreter).Reported ∧
      (evaluate text {} .interpreter).outcome = .error (.overlongNumber 4301) := by
  intro text
  have hlong : IsOverlong (List.replicate 4301 '1') := by
    refine ⟨fun c hmem => ?_, ?_⟩
    · rw [List.eq_of_mem_replicate hmem]
      rfl
    · rw [List.length_replicate]
      decide
  have houtcome := outcome_runLine_of_overlong hlong {} .interpreter
  rw [List.length_replicate] at houtcome
  refine ⟨?_, by rw [evaluate, houtcome]⟩
  rintro (⟨v, hok⟩ | ⟨e, herror, -⟩)
  · cases houtcome.symm.trans hok
  · cases houtcome.symm.trans herror

end CommandLine

end LineCalc
