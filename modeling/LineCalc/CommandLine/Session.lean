import LineCalc.Text.Blank
import LineCalc.CommandLine.Options

/-!
# Sessions

What the program writes and returns for its arguments and its standard input. Without a text to
evaluate it asks for lines until the input ends or is interrupted. Errors of a line are shown and
the session goes on; a defect ends it.
-/

namespace LineCalc.CommandLine

/-- What was written, and the status or the defect that the program ended with. -/
structure Console where
  /-- Standard output. -/
  stdout : String
  /-- Standard error. -/
  stderr : String
  /-- The page that was written last. -/
  page : Option Page
  /-- The status, or the defect. -/
  outcome : Except Defect Nat

/-- What is written to ask for a line. -/
def prompt : String := "calc> "

/-- The error of a line on a line of its own. -/
def errorLine (e : LineError) : String := e.report.text ++ "\n"

variable [Platform]

/-- Run one line and show its error. The status tells whether there was one. -/
def evaluate (text : String) (settings : Settings) (backend : Backend) : Console :=
  let t := runLine text settings backend
  match t.outcome with
  | .ok _ => ⟨t.stdout, t.stderr, t.page, .ok 0⟩
  | .error (.error e) => ⟨t.stdout ++ errorLine e, t.stderr, t.page, .ok 1⟩
  | .error (.defect d) => ⟨t.stdout, t.stderr, t.page, .error d⟩

/-- Answer one line of a session. A blank line is passed over. -/
def answer (line : String) (settings : Settings) (backend : Backend) : Console :=
  if Text.isBlankLine line then ⟨"", "", none, .ok 0⟩ else evaluate line settings backend

/-- A session over the given lines. -/
def session (settings : Settings) (backend : Backend) : List String → Console
  | [] => ⟨prompt, "", none, .ok 0⟩
  | line :: rest =>
    let shown := answer line settings backend
    match shown.outcome with
    | .error d => ⟨prompt ++ shown.stdout, shown.stderr, shown.page, .error d⟩
    | .ok _ =>
      let later := session settings backend rest
      ⟨prompt ++ shown.stdout ++ later.stdout, shown.stderr ++ later.stderr,
        later.page.or shown.page, later.outcome⟩

/-- What the program gets when it asks for a line. -/
inductive Reply
  /-- A line, without the line feed. -/
  | line (text : String)
  /-- The input has ended. -/
  | endOfInput
  /-- The user has interrupted the program. -/
  | interrupt
deriving DecidableEq

/-- The lines of a session. There are none behind the end of the input or an interrupt. -/
def Reply.lines : List Reply → List String
  | .line text :: rest => text :: Reply.lines rest
  | _ => []

/-- The lines of a text. A line ends at a line feed, and the last one may lack it. -/
def inputLines (input : String) : List String :=
  let parts := (input.toList.splitOnP (· == '\n')).map String.ofList
  if parts.getLast? = some "" then parts.dropLast else parts

/-- Run the program on its arguments and what it gets when it asks for lines. -/
def runWith (args : List String) (replies : List Reply) : Console :=
  match request args with
  | .error e => ⟨"", e.text, none, .ok 2⟩
  | .ok .help => ⟨helpText, "", none, .ok 0⟩
  | .ok (.run options) =>
    match options.command with
    | some text => evaluate text options.settings options.backend
    | none => session options.settings options.backend (Reply.lines replies)

/-- Run the program on its arguments and its standard input. -/
def run (args : List String) (input : String) : Console :=
  runWith args ((inputLines input).map .line ++ [.endOfInput])

end LineCalc.CommandLine
