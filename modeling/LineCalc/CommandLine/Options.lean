import LineCalc.Text.DecimalDigit
import LineCalc.Line

/-!
# Command-line options

Arguments are first classified one by one and then read from left to right. Long options may be cut
short, a value may be attached to its option, and an argument that looks like a negative number or
holds a space is no option. All arguments after `--` are plain.
-/

namespace LineCalc.CommandLine

/-- The options. -/
inductive Switch
  | help
  | command
  | jit
  | tokens
  | ir
  | ast
  | cdn
deriving DecidableEq

namespace Switch

/-- All options, in the order in which they are listed. -/
def all : List Switch := [.help, .command, .jit, .tokens, .ir, .ast, .cdn]

/-- How an option can be written in full. -/
def spellings : Switch → List String
  | .help => ["-h", "--help"]
  | .command => ["-c"]
  | .jit => ["--jit"]
  | .tokens => ["--tokens"]
  | .ir => ["--ir"]
  | .ast => ["--ast"]
  | .cdn => ["--cdn-echarts"]

/-- An option as error messages name it. -/
def title (s : Switch) : String := "/".intercalate s.spellings

/-- All spellings with their options. -/
def table : List (String × Switch) := all.flatMap fun s => s.spellings.map (·, s)

/-- The option with a given spelling. -/
def ofSpelling? (text : String) : Option Switch := table.lookup text

/-- The options that a text with two dashes may be short for. -/
def abbreviated (text : String) : List (String × Switch) :=
  table.filter fun entry => text.toList.isPrefixOf entry.1.toList

end Switch

/-- Why the arguments are refused. -/
inductive UsageError
  /-- An abbreviation of more than one option. -/
  | ambiguous (arg : String) (candidates : List String)
  /-- The text to be evaluated is missing. -/
  | expectedArgument
  /-- A value for an option that takes none. -/
  | ignoredArgument (switch : Switch) (value : String)
  /-- Arguments without a meaning. -/
  | unrecognized (args : List String)
deriving DecidableEq

/-- The wording of a usage error. -/
def UsageError.message : UsageError → String
  | .ambiguous arg candidates =>
    s!"ambiguous option: {arg} could match " ++ ", ".intercalate candidates
  | .expectedArgument => s!"argument {Switch.command.title}: expected one argument"
  | .ignoredArgument switch value =>
    s!"argument {switch.title}: ignored explicit argument {Text.quoted value}"
  | .unrecognized args => "unrecognized arguments: " ++ " ".intercalate args

/-! ### Classification -/

/-- What an argument is on its own. -/
inductive Arg
  /-- An option, whether it is written with one dash, and the value attached to it. -/
  | option (switch : Switch) (short : Bool) (value : Option String)
  /-- Looks like an option and is none. -/
  | unknown (text : String)
  /-- Anything else. -/
  | plain (text : String)
deriving DecidableEq

/-- The texts before and after the first equals sign. -/
def splitAtEquals (arg : List Char) : String × Option String :=
  match arg.dropWhile (· != '=') with
  | [] => (String.ofList arg, none)
  | _ :: value => (String.ofList (arg.takeWhile (· != '=')), some (String.ofList value))

/-- Digits, possibly after other digits and a point. -/
def isUnsignedNumber (text : List Char) : Bool :=
  match text.dropWhile Text.isDecimalDigit with
  | [] => !text.isEmpty
  | '.' :: fraction => !fraction.isEmpty && fraction.all Text.isDecimalDigit
  | _ => false

/-- A dash and an unsigned number, where one line break may follow. -/
def isNegativeNumber (arg : List Char) : Bool :=
  match arg with
  | '-' :: number =>
    isUnsignedNumber number ||
      (number.getLast? == some '\n' && isUnsignedNumber number.dropLast)
  | _ => false

/-- What an argument with a dash is if it is no option. -/
def classifyOther (arg : String) : Arg :=
  if isNegativeNumber arg.toList || arg.toList.contains ' ' then .plain arg else .unknown arg

/-- What an argument with two dashes is that is not written in full. -/
def classifyLong (arg : String) : Except UsageError Arg :=
  let (name, value) := splitAtEquals arg.toList
  match Switch.abbreviated name with
  | [] => .ok (classifyOther arg)
  | [(_, switch)] => .ok (.option switch false value)
  | several => .error (.ambiguous arg (several.map (·.1)))

/-- What an argument with one dash is that is not written in full. -/
def classifyShort (arg : String) : Arg :=
  match Switch.ofSpelling? (String.ofList (arg.toList.take 2)) with
  | some switch => .option switch true (some (String.ofList (arg.toList.drop 2)))
  | none => classifyOther arg

/-- Whether an option's spelling has one dash only. -/
def isShort (spelling : String) : Bool := !("--".toList.isPrefixOf spelling.toList)

/-- What an argument is on its own. -/
def classify (arg : String) : Except UsageError Arg :=
  match arg.toList with
  | '-' :: second :: _ =>
    let (name, value) := splitAtEquals arg.toList
    match Switch.ofSpelling? arg, Switch.ofSpelling? name with
    | some switch, _ => .ok (.option switch (isShort arg) none)
    | none, some switch => .ok (.option switch (isShort name) value)
    | none, none => if second = '-' then classifyLong arg else .ok (classifyShort arg)
  | _ => .ok (.plain arg)

/-- What the arguments are. The separator itself is no value for an option. -/
def classifyAll : List String → Except UsageError (List Arg)
  | [] => .ok []
  | arg :: rest =>
    if arg = "--" then .ok (.unknown arg :: rest.map .plain)
    else do
      let first ← classify arg
      let others ← classifyAll rest
      return first :: others

/-! ### Reading -/

/-- What the options ask for. -/
structure Options where
  /-- The text to be evaluated; a session if there is none. -/
  command : Option String := none
  /-- Compile and run. -/
  jit : Bool := false
  /-- List the tokens. -/
  tokens : Bool := false
  /-- Show the compiled code. -/
  ir : Bool := false
  /-- Write a page with the tree. -/
  ast : Bool := false
  /-- Let the page load its script from the network. -/
  cdn : Bool := false
deriving DecidableEq

/-- The backend that the options select. -/
def Options.backend (o : Options) : Backend := if o.jit then .native else .interpreter

/-- The settings that the options select. -/
def Options.settings (o : Options) : Settings where
  logTokens := o.tokens
  logCode := o.ir
  display := o.ast
  host := if o.cdn then .network else .sameDirectory

/-- What is to be done. -/
inductive Request
  | help
  | run (options : Options)
deriving DecidableEq

/-- The options with one that takes no value. -/
def Options.enable (o : Options) : Switch → Options
  | .jit => { o with jit := true }
  | .tokens => { o with tokens := true }
  | .ir => { o with ir := true }
  | .ast => { o with ast := true }
  | .cdn => { o with cdn := true }
  | .help | .command => o

/-- The text given by a value attached to its option. Two dashes alone are dropped. -/
def attachedText (value : String) : String := if value = "--" then "" else value

/-- Whether a request for help still holds after the letters behind it in the same argument, which
have to be options themselves. -/
def readCluster (next : List Arg) : List Char → Except UsageError Request
  | [] => .ok .help
  | 'h' :: rest => readCluster next rest
  | ['c'] =>
    match next with
    | .plain _ :: _ => .ok .help
    | _ => .error .expectedArgument
  | 'c' :: _ => .ok .help
  | letters => .error (.ignoredArgument .help (String.ofList letters))

/-- Read arguments from left to right, given the options so far and what had no meaning, the latest
first. -/
def read : List Arg → Options → List String → Except UsageError Request
  | [], options, [] => .ok (.run options)
  | [], _, extras => .error (.unrecognized extras.reverse)
  | .plain text :: rest, options, extras => read rest options (text :: extras)
  | .unknown text :: rest, options, extras => read rest options (text :: extras)
  | .option .command _ (some value) :: rest, options, extras =>
    read rest { options with command := some (attachedText value) } extras
  | .option .command _ none :: .plain text :: rest, options, extras =>
    read rest { options with command := some text } extras
  | .option .command _ none :: _, _, _ => .error .expectedArgument
  | .option .help true (some value) :: rest, _, _ =>
    if value.isEmpty then .error (.ignoredArgument .help value) else readCluster rest value.toList
  | .option switch _ (some value) :: _, _, _ => .error (.ignoredArgument switch value)
  | .option .help _ none :: _, _, _ => .ok .help
  | .option switch _ none :: rest, options, extras => read rest (options.enable switch) extras

/-- What the arguments ask for. -/
def request (args : List String) : Except UsageError Request := do
  read (← classifyAll args) {} []

/-! ### Texts -/

/-- The line that shows how to call the program. -/
def usage : String :=
  "usage: pcalc [-h] [-c TEXT] [--jit] [--tokens] [--ir] [--ast] [--cdn-echarts]\n"

/-- The text that explains the options. -/
def helpText : String :=
  usage ++ "\nPCALC - Simple Calculator\n\noptions:\n" ++
  "  -h, --help     show this help message and exit\n" ++
  "  -c TEXT        Evaluate one line and exit\n" ++
  "  --jit          Compile to LLVM IR and run it natively\n" ++
  "  --tokens       Print every token\n" ++
  "  --ir           Print generated LLVM IR to stderr\n" ++
  "  --ast          Render the abstract syntax tree to \"Tree.html\"\n" ++
  "  --cdn-echarts  Load echarts from the CDN in \"Tree.html\"\n"

/-- The text that refuses the arguments. -/
def UsageError.text (e : UsageError) : String := usage ++ "pcalc: error: " ++ e.message ++ "\n"

end LineCalc.CommandLine
