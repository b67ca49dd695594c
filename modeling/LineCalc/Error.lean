import LineCalc.Token

/-!
# Errors

Every error of a line is a cause: a value of `LexError`, `ParseError`, `ArithmeticError` or
`LineError`. Its outward form is a `Report` with a stage, a code, a place and a message. Conditions
that no stage reports as an error of the line are kept apart as a `Defect`.
-/

namespace LineCalc

/-- The codes that classify errors. -/
inductive ErrorCode
  | unexpectedChar
  | malformedNumber
  | expectedKeyword
  | unexpectedToken
  | trailingInput
  | lexicalError
  | nestingTooDeep
  | divisionByZero
  | divisionOverflow
  | nativeBackendFailure
deriving DecidableEq

namespace ErrorCode

/-- All codes, in the order in which they are listed. -/
def all : List ErrorCode := [
  .unexpectedChar, .malformedNumber, .expectedKeyword, .unexpectedToken, .trailingInput,
  .lexicalError, .nestingTooDeep, .divisionByZero, .divisionOverflow, .nativeBackendFailure]

/-- The name of a code. -/
def name : ErrorCode → String
  | .unexpectedChar => "UNEXPECTED_CHAR"
  | .malformedNumber => "MALFORMED_NUMBER"
  | .expectedKeyword => "EXPECTED_KEYWORD"
  | .unexpectedToken => "UNEXPECTED_TOKEN"
  | .trailingInput => "TRAILING_INPUT"
  | .lexicalError => "LEXICAL_ERROR"
  | .nestingTooDeep => "NESTING_TOO_DEEP"
  | .divisionByZero => "DIVISION_BY_ZERO"
  | .divisionOverflow => "DIVISION_OVERFLOW"
  | .nativeBackendFailure => "NATIVE_BACKEND_FAILURE"

/-- A code in words. -/
def title : ErrorCode → String
  | .unexpectedChar => "Unexpected char"
  | .malformedNumber => "Malformed number"
  | .expectedKeyword => "Expected keyword"
  | .unexpectedToken => "Unexpected token"
  | .trailingInput => "Trailing input"
  | .lexicalError => "Lexical error"
  | .nestingTooDeep => "Nesting too deep"
  | .divisionByZero => "Division by zero"
  | .divisionOverflow => "Division overflow"
  | .nativeBackendFailure => "Native backend failure"

/-- The code of a given name. -/
def ofName? (name : String) : Option ErrorCode := all.find? (·.name == name)

end ErrorCode

/-- The stage that an error belongs to. -/
inductive Stage
  | general
  | lexer
  | parser
  | interpreter
  | compiler
deriving DecidableEq

namespace Stage

/-- All stages. -/
def all : List Stage := [.general, .lexer, .parser, .interpreter, .compiler]

/-- The word that opens the text of a stage's errors. -/
def label : Stage → String
  | .general => "Error"
  | .lexer => "LexerError"
  | .parser => "ParserError"
  | .interpreter => "InterpreterError"
  | .compiler => "CompilerError"

/-- The stage of a given label. -/
def ofLabel? (label : String) : Option Stage := all.find? (·.label == label)

end Stage

/-- The outward form of an error. -/
structure Report where
  /-- The stage that failed. -/
  stage : Stage
  /-- The class of the error. -/
  code : ErrorCode
  /-- Where it happened, if that is known. -/
  position : Option Position
  /-- What happened. -/
  message : String
deriving DecidableEq

/-- An error in one line of text: stage, place if known, message. -/
def Report.text (r : Report) : String :=
  match r.position with
  | none => s!"{r.stage.label}: {r.message}"
  | some p => s!"{r.stage.label}: <{p.text}>: {r.message}"

/-! ### Wording -/

namespace Message

/-- A character that starts no token. -/
def unexpectedChar (item : Payload) : String := s!"unexpected char `{item.plain}`"

/-- A number out of range. -/
def malformedNumber (item : Payload) : String := s!"number `{item.plain}` does not fit in 32 bits"

/-- A keyword that was begun and not finished. -/
def expectedKeyword (want item : Payload) : String :=
  let found := match item with
    | .absent => "end of input"
    | _ => s!"`{item.plain}`"
  s!"expected keyword `{want.plain}`, found {found}"

/-- A token in a place where another kind is wanted. -/
def unexpectedToken (item want : Payload) : String :=
  s!"token `{item.plain}` is not expected, want `{want.plain}`"

/-- A token after a complete line. -/
def trailingInput (item : Payload) : String := s!"trailing input starting at token `{item.plain}`"

/-- An expression with too many levels. -/
def nestingTooDeep : String := "expression is nested too deeply"

/-- A division by zero. -/
def divisionByZero : String := "division by zero"

/-- A quotient out of range. -/
def divisionOverflow : String := "division overflows 32-bit integer"

end Message

/-! ### Defects -/

/-- Conditions that leave a stage without being an error of the line. -/
inductive Defect
  /-- A number was asked for where this text stands. -/
  | notNumber (text : String)
  /-- A run of more digits than can be converted. -/
  | overlongNumber (digits : Nat)
  /-- A number of more digits than can be written. -/
  | unwritableNumber
  /-- A tree node was to be joined by a token that is no operator. -/
  | notOperator (label : TokenLabel)
  /-- A tree holds a node of a sort that no walker handles. -/
  | unknownNode (name : String)
  /-- The levels of nesting ran out. -/
  | tooDeep
  /-- A routine of this name is already there. -/
  | nameTaken (name : String)
  /-- A step of emission was taken before the routine was begun. -/
  | noRoutine (step : String)
  /-- A routine was to be ended before it had a value. -/
  | noValue
  /-- A block was to be ended a second time. -/
  | blockEnded
  /-- A routine returned a number that stands for no status. -/
  | unknownStatus (code : Int)
  /-- A file was to be written to a directory that is not there. -/
  | noDirectory (path : String)
  /-- A file was to be written in place of a directory. -/
  | isDirectory (path : String)
  /-- A file was to be given a name that is too long. -/
  | nameTooLong (path : String)
  /-- A file was to be given a name with a null character. -/
  | nulInName
deriving DecidableEq

/-- A text in quotes, cut off after two hundred characters. -/
def Defect.excerpt (text : String) : String :=
  String.ofList ((Text.quoted text).toList.take 200)

/-- The wording for a part of something that is not there. -/
def Defect.missing (part : String) : String :=
  s!"\x27NoneType\x27 object has no attribute {Text.quoted part}"

/-- What is said of a defect. -/
def Defect.message : Defect → String
  | .notNumber text => "invalid literal for int() with base 10: " ++ excerpt text
  | .overlongNumber digits =>
    "Exceeds the limit (4300 digits) for integer string conversion: " ++
      s!"value has {digits} digits; use sys.set_int_max_str_digits() to increase the limit"
  | .unwritableNumber =>
    "Exceeds the limit (4300 digits) for integer string conversion; " ++
      "use sys.set_int_max_str_digits() to increase the limit"
  | .notOperator label => s!"{label.text} is not a binary operator"
  | .unknownNode name => s!"No visit_{name} method"
  | .tooDeep => Message.nestingTooDeep
  | .nameTaken name => name
  | .noRoutine step => missing step
  | .noValue => missing "type"
  | .blockEnded => ""
  | .unknownStatus code => s!"{code} is not a valid ExitStatus"
  | .noDirectory path => "[Errno 2] No such file or directory: " ++ Text.quoted path
  | .isDirectory path => "[Errno 21] Is a directory: " ++ Text.quoted path
  | .nameTooLong path => "[Errno 36] File name too long: " ++ Text.quoted path
  | .nulInName => "embedded null byte"

/-- Why a stage ended without a result: an error of the line, or a defect. -/
inductive Failure (ε : Type)
  | error (e : ε)
  | defect (d : Defect)
deriving DecidableEq

/-- The same failure under another notion of error. -/
def Failure.map {ε δ : Type} (f : ε → δ) : Failure ε → Failure δ
  | .error e => .error (f e)
  | .defect d => .defect d

/-! ### Causes -/

/-- Why no token can be read. -/
inductive LexCause
  | unexpectedChar (found : Char)
  | numberTooLarge (digits : List Char)
  | keywordExpected (found : Option Char)
deriving DecidableEq

/-- A text that does not start with a token, and the place where that shows. -/
structure LexError where
  /-- What is wrong. -/
  cause : LexCause
  /-- Where it is wrong. -/
  position : Position
deriving DecidableEq

namespace LexError

/-- The class of a lexical error. -/
def code (e : LexError) : ErrorCode :=
  match e.cause with
  | .unexpectedChar _ => .unexpectedChar
  | .numberTooLarge _ => .malformedNumber
  | .keywordExpected _ => .expectedKeyword

/-- The source text at fault; nothing at the end of the text. -/
def found (e : LexError) : Option String :=
  match e.cause with
  | .unexpectedChar c => some c.toString
  | .numberTooLarge digits => some (String.ofList digits)
  | .keywordExpected c => c.map (·.toString)

/-- The source text that was wanted, where only one is possible. -/
def expected (e : LexError) : Option String :=
  match e.cause with
  | .keywordExpected _ => some printWord
  | _ => none

/-- The wording of a lexical error. -/
def message (e : LexError) : String :=
  match e.cause with
  | .unexpectedChar c => Message.unexpectedChar (.text c.toString)
  | .numberTooLarge digits => Message.malformedNumber (.text (String.ofList digits))
  | .keywordExpected c =>
    Message.expectedKeyword (.text printWord) (c.elim .absent fun c => .text c.toString)

/-- The outward form of a lexical error. -/
def report (e : LexError) : Report := ⟨.lexer, e.code, some e.position, e.message⟩

end LexError

/-- Why a text is no program. -/
inductive ParseError
  /-- Another kind of token is wanted here. -/
  | unexpectedToken (found : Token) (expected : Kind)
  /-- The line is complete before this token. -/
  | trailingInput (found : Token)
  /-- This number would fit only as the magnitude of a negative literal. -/
  | numberTooLarge (found : Token)
  /-- No token can be read here. -/
  | lexical (e : LexError)
  /-- The parentheses nest too deeply. -/
  | tooDeep
deriving DecidableEq

namespace ParseError

/-- The class of a syntax error. -/
def code : ParseError → ErrorCode
  | .unexpectedToken _ _ => .unexpectedToken
  | .trailingInput _ => .trailingInput
  | .numberTooLarge _ => .malformedNumber
  | .lexical _ => .lexicalError
  | .tooDeep => .nestingTooDeep

/-- The token at fault. -/
def found : ParseError → Option Token
  | .unexpectedToken t _ | .trailingInput t | .numberTooLarge t => some t
  | _ => none

/-- The kind of token that was wanted. -/
def expected : ParseError → Option Kind
  | .unexpectedToken _ kind => some kind
  | .trailingInput _ => some .eof
  | _ => none

/-- The lexical error behind it. -/
def lexError : ParseError → Option LexError
  | .lexical e => some e
  | _ => none

/-- The place of a syntax error; too deep a nesting has none. -/
def position : ParseError → Option Position
  | .unexpectedToken t _ | .trailingInput t | .numberTooLarge t => some t.position
  | .lexical e => some e.position
  | .tooDeep => none

/-- The wording of a syntax error. -/
def message : ParseError → String
  | .unexpectedToken t kind =>
    Message.unexpectedToken (.text t.kind.spelling) (.text kind.spelling)
  | .trailingInput t => Message.trailingInput t.lexeme.payload
  | .numberTooLarge t => Message.malformedNumber t.lexeme.payload
  | .lexical e => e.message
  | .tooDeep => Message.nestingTooDeep

/-- The outward form of a syntax error. -/
def report (e : ParseError) : Report := ⟨.parser, e.code, e.position, e.message⟩

end ParseError

/-- The faults of arithmetic. -/
inductive Fault
  | divisionByZero
  | divisionOverflow
deriving DecidableEq

namespace Fault

/-- The class of a fault. -/
def code : Fault → ErrorCode
  | .divisionByZero => .divisionByZero
  | .divisionOverflow => .divisionOverflow

/-- The wording of a fault. -/
def message : Fault → String
  | .divisionByZero => Message.divisionByZero
  | .divisionOverflow => Message.divisionOverflow

end Fault

/-- A fault and the place of the operator that met it, if known. -/
structure ArithmeticError where
  /-- What went wrong. -/
  fault : Fault
  /-- The place of the division. -/
  position : Option Position
deriving DecidableEq

/-- The outward form of an arithmetic error. -/
def ArithmeticError.report (e : ArithmeticError) : Report :=
  ⟨.interpreter, e.fault.code, e.position, e.fault.message⟩

/-- Why a line has no value. -/
inductive LineError
  /-- The text is no program. -/
  | parse (e : ParseError)
  /-- A division has no result. -/
  | arithmetic (e : ArithmeticError)
  /-- The tree is too deep to be evaluated. -/
  | evaluationTooDeep
  /-- The tree is too deep to be compiled. -/
  | compilationTooDeep
  /-- The machine refused the module. -/
  | backendFailure
deriving DecidableEq

/-- The outward form of a line's error. -/
def LineError.report : LineError → Report
  | .parse e => e.report
  | .arithmetic e => e.report
  | .evaluationTooDeep => ⟨.interpreter, .nestingTooDeep, none, Message.nestingTooDeep⟩
  | .compilationTooDeep => ⟨.compiler, .nestingTooDeep, none, Message.nestingTooDeep⟩
  | .backendFailure => ⟨.compiler, .nativeBackendFailure, none, "module is not valid"⟩

end LineCalc
