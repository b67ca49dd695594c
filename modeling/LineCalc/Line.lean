import LineCalc.Parser
import LineCalc.Page
import LineCalc.Expr.Compile
import LineCalc.IR.Header
import LineCalc.IR.Machine

/-!
# Running a line

A line is parsed, possibly displayed, and evaluated by one of two backends: by walking its tree,
or by compiling it and running the code. A `Transcript` holds all that can be seen of that.
-/

namespace LineCalc

/-- The two ways to evaluate a tree. -/
inductive Backend
  | interpreter
  | native
deriving DecidableEq

namespace Backend

/-- Both backends. -/
def all : List Backend := [.interpreter, .native]

/-- The name of a backend. -/
def name : Backend → String
  | .interpreter => "INTERPRETER"
  | .native => "NATIVE"

/-- The word that selects a backend. -/
def word : Backend → String
  | .interpreter => "interpret"
  | .native => "jit"

end Backend

/-- What is shown besides the output of a line. -/
structure Settings where
  /-- List the tokens as they are drawn. -/
  logTokens : Bool := false
  /-- Show the compiled code. -/
  logCode : Bool := false
  /-- Write a page with the tree. -/
  display : Bool := false
  /-- Where that page loads its script from. -/
  host : ScriptHost := .sameDirectory
deriving DecidableEq

/-- What a line wrote, and its value or why it has none. -/
structure Transcript where
  /-- Standard output. -/
  stdout : String
  /-- Standard error. -/
  stderr : String
  /-- The page that was written last. -/
  page : Option Page
  /-- The value, or why there is none. -/
  outcome : Except (Failure LineError) Int

namespace Transcript

/-- A failure without output. -/
def fail (failure : Failure LineError) : Transcript := ⟨"", "", none, .error failure⟩

/-- The same with a text on standard output before it. -/
def after (t : Transcript) (log : String) : Transcript := { t with stdout := log ++ t.stdout }

/-- The same with too deep a nesting reported as the given error. -/
def reportDepth (t : Transcript) (error : LineError) : Transcript :=
  match t.outcome with
  | .error (.defect .tooDeep) => { t with outcome := .error (.error error) }
  | _ => t

end Transcript

/-- Printed numbers, one a line. -/
def printedText (printed : List Int) : String :=
  String.join (printed.map fun value => toString value ++ "\n")

section

variable [Platform]

/-- Evaluate a tree by walking it. -/
def Expr.interpret (e : Expr) : Transcript :=
  let trace := e.eval
  ⟨printedText trace.printed, "", none, trace.outcome.mapError (·.map .arithmetic)⟩

/-- What the number that a routine returned tells of its result: that it is good, or which fault
there was instead. -/
def IR.decode (code result : Int) : Except (Failure LineError) Int :=
  match ExitStatus.ofCode? code with
  | none => .error (.defect (.unknownStatus code))
  | some status =>
    match status.fault? with
    | none => .ok result
    | some fault => .error (.error (.arithmetic ⟨fault, none⟩))

/-- Run a module. A name that makes its text invalid keeps it from running. -/
def IR.Module.run (m : Module) : List Int × Except (Failure LineError) Int :=
  if Header.accepts m.name then
    let (halt, s) := runBlocks (m.main.getD [])
    let outcome := match halt with
      | .returned status => decode status.toInt s.result.toInt
      | _ => .error (.error .backendFailure)
    (s.printed.reverse, outcome)
  else
    ([], .error (.error .backendFailure))

/-- Evaluate a tree by compiling it to a module of the given name and running that. The module is
handed over as text, so it has to be one that can be written. -/
def Expr.runNative (e : Expr) (name : String) (logCode : Bool) : Transcript :=
  match e.compile name with
  | .error defect => .fail (.defect defect)
  | .ok module =>
    match module.write with
    | .error defect => .fail (.defect defect)
    | .ok text =>
      let (printed, outcome) := module.run
      ⟨printedText printed, if logCode then text ++ "\n" else "", none, outcome⟩

/-- The name of the module that a line is compiled to. -/
def defaultModule : String := "calc"

/-- Evaluate a tree with a backend. -/
def Expr.runOn (e : Expr) (backend : Backend) (logCode : Bool) : Transcript :=
  match backend with
  | .interpreter => e.interpret.reportDepth .evaluationTooDeep
  | .native => (e.runNative defaultModule logCode).reportDepth .compilationTooDeep

/-- Display a tree if that is asked for, and evaluate it. -/
def Expr.run (e : Expr) (settings : Settings) (backend : Backend) : Transcript :=
  if settings.display then
    match e.page settings.host with
    | .error defect => .fail (.defect defect)
    | .ok page => { e.runOn backend settings.logCode with page := some page }
  else
    e.runOn backend settings.logCode

end

/-- The listing of some tokens, one a line. -/
def tokenLog (tokens : List Token) : String :=
  String.join (tokens.map fun token => token.label.text ++ "\n")

/-- The listing of some tokens if that is asked for. -/
def Settings.listing (settings : Settings) (tokens : List Token) : String :=
  if settings.logTokens then tokenLog tokens else ""

/-- Go on with the tree of a text, after the listing of its tokens if that is asked for. -/
def Parsed.run (p : Parsed) (settings : Settings) (go : Expr → Transcript) : Transcript :=
  let log := settings.listing p.tokens
  match p.result with
  | .error failure => (Transcript.fail (failure.map .parse)).after log
  | .ok tree => (go tree).after log

/-- Parse a text with the levels that are left for its parentheses. -/
def Settings.parse [Platform] (settings : Settings) (text : String) : Parsed :=
  LineCalc.parse (nestingLimit settings.logTokens) text

/-- Run a line. -/
def runLine [Platform] (text : String) (settings : Settings) (backend : Backend) : Transcript :=
  (settings.parse text).run settings (·.run settings backend)

end LineCalc
