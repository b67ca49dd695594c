import LineCalc.Proofs.Listing
import LineCalc.Proofs.Reports

/-!
# Sessions line by line

A session is the evaluation of its lines one at a time, each as if it were alone. This is stated for
the whole program, from its arguments to what it has written when the input ends or is interrupted.
The arguments may be any of `flags`, in any order and number. They never ask for a display, so a
line can end a session only with a run of digits that is too long.

* `CommandLine.request_of_flags`: what such arguments ask for.
* `CommandLine.flagSettings`, `CommandLine.flagBackend`: what each flag means for the lines.
* `CommandLine.shown`, `CommandLine.logged`: what the lines write on their own.
* `CommandLine.exists_status_answer`: every line without too long a run of digits is answered.
* `CommandLine.runWith_line_by_line`: a session writes that and ends well, and the lines after some
  others are answered as in a session that starts with them.
-/

namespace LineCalc.CommandLine

/-! ### Arguments of a session -/

/-- The arguments that select the backend and what is logged. -/
def flags : List String := ["--jit", "--tokens", "--ir"]

/-- What is selected by arguments among them. -/
def flagOptions (args : List String) : Options where
  jit := args.contains "--jit"
  tokens := args.contains "--tokens"
  ir := args.contains "--ir"

/-- Each of them is an option that takes no value. -/
theorem classify_of_mem_flags {arg : String} (h : arg ∈ flags) :
    arg ≠ "--" ∧ ∃ switch, classify arg = .ok (.option switch false none) ∧
      ∀ options extras rest, read (.option switch false none :: rest) options extras =
        read rest { options with
          jit := options.jit || "--jit" == arg
          tokens := options.tokens || "--tokens" == arg
          ir := options.ir || "--ir" == arg } extras := by
  obtain rfl | rfl | rfl : arg = "--jit" ∨ arg = "--tokens" ∨ arg = "--ir" := by
    simpa [flags] using h
  · exact ⟨by decide, .jit, rfl, fun options extras rest => by simp [read, Options.enable]⟩
  · exact ⟨by decide, .tokens, rfl, fun options extras rest => by simp [read, Options.enable]⟩
  · exact ⟨by decide, .ir, rfl, fun options extras rest => by simp [read, Options.enable]⟩

/-- Arguments among the flags are accepted and add up. -/
theorem read_of_flags {args : List String} (h : ∀ arg ∈ args, arg ∈ flags) :
    ∃ classified, classifyAll args = .ok classified ∧
      ∀ options, read classified options [] = .ok (.run { options with
        jit := options.jit || args.contains "--jit"
        tokens := options.tokens || args.contains "--tokens"
        ir := options.ir || args.contains "--ir" }) := by
  -- The options so far are left free, since every flag is read on top of those before it.
  induction args with
  | nil => exact ⟨[], rfl, fun options => by simp [read]⟩
  | cons arg rest ih =>
    obtain ⟨harg, hrest⟩ := List.forall_mem_cons.1 h
    obtain ⟨hne, switch, hclassify, hread⟩ := classify_of_mem_flags harg
    obtain ⟨classified, hclassified, hreadRest⟩ := ih hrest
    refine ⟨.option switch false none :: classified, ?_, fun options => ?_⟩
    · rw [classifyAll, if_neg hne, hclassify, hclassified]
      rfl
    · rw [hread, hreadRest]
      simp only [List.contains_cons, Bool.or_assoc]

/-- Arguments among the flags ask for a session. -/
theorem request_of_flags {args : List String} (h : ∀ arg ∈ args, arg ∈ flags) :
    request args = .ok (.run (flagOptions args)) := by
  obtain ⟨classified, hclassified, hread⟩ := read_of_flags h
  rw [request, hclassified]
  exact (hread {}).trans (by simp [flagOptions])

/-- What is listed and shown for every line: the tokens and the code, each if it is asked for. -/
def flagSettings (args : List String) : Settings where
  logTokens := "--tokens" ∈ args
  logCode := "--ir" ∈ args

/-- The backend that evaluates every line. -/
def flagBackend (args : List String) : Backend :=
  if "--jit" ∈ args then .native else .interpreter

/-- The options have each flag mean just that. -/
theorem flagOptions_settings (args : List String) :
    (flagOptions args).settings = flagSettings args := by
  simp [flagOptions, flagSettings, Options.settings]

theorem flagOptions_backend (args : List String) :
    (flagOptions args).backend = flagBackend args := by
  simp [flagOptions, flagBackend, Options.backend]

/-! ### Lines of a session -/

section Lines

variable [Platform]

/-- What is written for the lines of a session: the prompt before each one, and what the line writes
on its own unless it is blank. -/
def shown (settings : Settings) (backend : Backend) (lines : List String) : String :=
  String.join (lines.map fun line =>
    prompt ++ if Text.isBlankLine line then "" else (evaluate line settings backend).stdout)

/-- What the lines write to standard error on their own, blank ones left out. -/
def logged (settings : Settings) (backend : Backend) (lines : List String) : String :=
  String.join (lines.map fun line =>
    if Text.isBlankLine line then "" else (evaluate line settings backend).stderr)

end Lines

/-- The lines that are read first are the first ones of the session. -/
theorem Reply.lines_append (lines : List String) (replies : List Reply) :
    Reply.lines (lines.map .line ++ replies) = lines ++ Reply.lines replies := by
  induction lines with
  | nil => rfl
  | cons line rest ih => rw [List.map_cons, List.cons_append, Reply.lines, ih, List.cons_append]

/-- Without a display, a line is answered with a status if its runs of digits are not too long. -/
theorem exists_status_answer [Platform] {settings : Settings} (hdisplay : settings.display = false)
    {line : String} (hfit : DigitRunsFit line) (backend : Backend) :
    ∃ status, (answer line settings backend).outcome = .ok status := by
  unfold answer
  split
  · exact ⟨0, rfl⟩
  · rcases runLine_reported_or_overlong hdisplay line backend with
      hreported | ⟨digits, hinfix, hlong, -⟩
    · obtain ⟨status, -, hstatus⟩ := evaluate_of_reported hreported
      exact ⟨status, hstatus⟩
    · exact absurd hlong (hfit digits hinfix)

/-- Without a text to evaluate the program is a session. -/
theorem runWith_of_request [Platform] {args : List String} {options : Options}
    (hrequest : request args = .ok (.run options)) (hcommand : options.command = none)
    (replies : List Reply) :
    runWith args replies = session options.settings options.backend (Reply.lines replies) := by
  rw [runWith, hrequest]
  dsimp only
  rw [hcommand]

/-- Without a display, lines whose runs of digits are not too long are answered one by one, and what
the program is told after them is answered as if they had never been. -/
theorem runWith_append [Platform] {args : List String} {options : Options}
    (hrequest : request args = .ok (.run options)) (hcommand : options.command = none)
    (hast : options.ast = false) {lines : List String} (hfit : ∀ line ∈ lines, DigitRunsFit line)
    (replies : List Reply) :
    (runWith args (lines.map .line ++ replies)).outcome = (runWith args replies).outcome ∧
      (runWith args (lines.map .line ++ replies)).stdout =
        shown options.settings options.backend lines ++ (runWith args replies).stdout ∧
      (runWith args (lines.map .line ++ replies)).stderr =
        logged options.settings options.backend lines ++ (runWith args replies).stderr := by
  have hanswered (line : String) (hmem : line ∈ lines) :
      ∃ status, (answer line options.settings options.backend).outcome = .ok status :=
    exists_status_answer hast (hfit line hmem) options.backend
  -- A blank line is answered with nothing, any other as it is on its own.
  have happend := session_append hanswered (Reply.lines replies)
  simp only [answer, apply_ite Console.stdout, apply_ite Console.stderr] at happend
  rw [runWith_of_request hrequest hcommand, runWith_of_request hrequest hcommand,
    Reply.lines_append]
  exact happend

/-- With any of the flags, a session over lines whose runs of digits are not too long ends well when
the input does or is interrupted, and it has written what the lines write on their own, each after
the prompt, and a last prompt. Whatever is read after such lines, more lines or the end of the
input, has the same effect as without them. -/
theorem runWith_line_by_line [Platform] {args : List String} (hargs : ∀ arg ∈ args, arg ∈ flags)
    {lines : List String} (hfit : ∀ line ∈ lines, DigitRunsFit line) :
    (∀ stop unread, stop = .endOfInput ∨ stop = .interrupt →
      (runWith args (lines.map .line ++ stop :: unread)).outcome = .ok 0 ∧
        (runWith args (lines.map .line ++ stop :: unread)).stdout =
          shown (flagSettings args) (flagBackend args) lines ++ prompt ∧
        (runWith args (lines.map .line ++ stop :: unread)).stderr =
          logged (flagSettings args) (flagBackend args) lines) ∧
      ∀ replies,
        (runWith args (lines.map .line ++ replies)).outcome = (runWith args replies).outcome ∧
          (runWith args (lines.map .line ++ replies)).stdout =
            shown (flagSettings args) (flagBackend args) lines ++ (runWith args replies).stdout ∧
          (runWith args (lines.map .line ++ replies)).stderr =
            logged (flagSettings args) (flagBackend args) lines ++
              (runWith args replies).stderr := by
  have hrequest := request_of_flags hargs
  rw [← flagOptions_settings, ← flagOptions_backend]
  refine ⟨fun stop unread hstop => ?_, runWith_append hrequest rfl rfl hfit⟩
  -- A session that gets no line asks for one and is over.
  have hstopped : runWith args (stop :: unread) = ⟨prompt, "", none, .ok 0⟩ := by
    rw [runWith_of_request hrequest rfl]
    rcases hstop with rfl | rfl <;> rfl
  have happend := runWith_append hrequest rfl rfl hfit (stop :: unread)
  rw [hstopped, String.append_empty] at happend
  exact happend

open scoped Platform in
/-- A fault, a blank line and a syntax error do not keep the last line from being answered, and what
comes after an interrupt is not read. The tokens of every line are listed, and the code is shown of
the lines that have one. -/
theorem runWith_line_by_line_interrupted :
    let args := ["--jit", "--tokens", "--ir"]
    let lines := ["1/0", "\u3000 ", "(1", "print 7"]
    let console := runWith args (lines.map .line ++ [.interrupt, .line "8"])
    (∀ arg ∈ args, arg ∈ flags) ∧ (∀ line ∈ lines, DigitRunsFit line) ∧
      console.outcome = .ok 0 ∧
      console.stdout = "\n".intercalate [
        "calc> Token(TokenType.INTEGER_CONST, 1, pos=1:1)",
        "Token(TokenType.DIV, '/', pos=1:2)",
        "Token(TokenType.INTEGER_CONST, 0, pos=1:3)",
        "Token(TokenType.EOF, None, pos=1:4)",
        "InterpreterError: division by zero",
        "calc> calc> Token(TokenType.LPAREN, '(', pos=1:1)",
        "Token(TokenType.INTEGER_CONST, 1, pos=1:2)",
        "Token(TokenType.EOF, None, pos=1:3)",
        "ParserError: <1:3>: token `EOF` is not expected, want `)`",
        "calc> Token(TokenType.PRINT, 'print', pos=1:1)",
        "Token(TokenType.INTEGER_CONST, 7, pos=1:7)",
        "Token(TokenType.EOF, None, pos=1:8)",
        "7",
        "calc> "] ∧
      console.stderr = "\n".intercalate [
        "; ModuleID = \"calc\"",
        "target triple = \"unknown-unknown-unknown\"",
        "target datalayout = \"\"",
        "",
        "declare i32 @\"printf\"(i8* %\".1\", ...)",
        "",
        "@\"format_str\" = private constant [4 x i8] c\"%d\\0a\\00\"",
        "@\"result\" = global i32 0",
        "define i32 @\"main\"()",
        "\x7b",
        "entry:",
        "  %\"divzero\" = icmp eq i32 0, 0",
        "  br i1 %\"divzero\", label %\"entry.if\", label %\"entry.endif\", !prof !0",
        "entry.if:",
        "  ret i32 1",
        "entry.endif:",
        "  %\".4\" = icmp eq i32 1, -2147483648",
        "  %\".5\" = icmp eq i32 0, -1",
        "  %\"divoverflow\" = and i1 %\".4\", %\".5\"",
        "  br i1 %\"divoverflow\", label %\"entry.endif.if\", label %\"entry.endif.endif\"," ++
          " !prof !0",
        "entry.endif.if:",
        "  ret i32 2",
        "entry.endif.endif:",
        "  %\"tmpdiv\" = sdiv i32 1, 0",
        "  store i32 %\"tmpdiv\", i32* @\"result\"",
        "  ret i32 0",
        "\x7d",
        "",
        "!0 = !\x7b !\"branch_weights\", i32 1, i32 99 \x7d",
        "; ModuleID = \"calc\"",
        "target triple = \"unknown-unknown-unknown\"",
        "target datalayout = \"\"",
        "",
        "declare i32 @\"printf\"(i8* %\".1\", ...)",
        "",
        "@\"format_str\" = private constant [4 x i8] c\"%d\\0a\\00\"",
        "@\"result\" = global i32 0",
        "define i32 @\"main\"()",
        "\x7b",
        "entry:",
        "  %\".2\" = bitcast [4 x i8]* @\"format_str\" to i8*",
        "  %\"printf_call\" = call i32 (i8*, ...) @\"printf\"(i8* %\".2\", i32 7)",
        "  store i32 7, i32* @\"result\"",
        "  ret i32 0",
        "\x7d",
        "",
        ""] := by
  intro args lines console
  have hargs : ∀ arg ∈ args, arg ∈ flags := by decide
  have hfit : ∀ line ∈ lines, DigitRunsFit line := by
    have hlength : ∀ line ∈ lines, line.toList.length ≤ Numeral.maxDigits := by decide
    exact fun line hmem => digitRunsFit_of_length_le (hlength line hmem)
  obtain ⟨houtcome, hstdout, hstderr⟩ :=
    (runWith_line_by_line hargs hfit).1 .interrupt [.line "8"] (.inr rfl)
  refine ⟨hargs, hfit, houtcome, hstdout.trans ?_, hstderr.trans ?_⟩
  · -- The listing is brought into its plain form, which is faster to compute than its quotes.
    simp only [shown, evaluate, runLine, Parsed.run, Settings.listing_eq]
    decide +kernel
  · decide +kernel

end LineCalc.CommandLine
