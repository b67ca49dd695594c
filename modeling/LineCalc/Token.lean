import LineCalc.Text.Quoted

/-!
# Tokens

The vocabulary of a line. A `Token` is a lexeme with its place, as read from a text; a `TokenLabel`
is the outward form of a token, which may pair any kind with any value and may lack a place.
-/

namespace LineCalc

/-- A place in a text. Lines and columns of a text count from one. -/
structure Position where
  /-- The line. -/
  line : Int
  /-- The column within the line. -/
  col : Int
deriving DecidableEq

/-- A place as line and column with a colon between them. -/
def Position.text (p : Position) : String := s!"{p.line}:{p.col}"

/-- The four operations of arithmetic. -/
inductive BinaryOp
  | add
  | sub
  | mul
  | div
deriving DecidableEq

namespace BinaryOp

/-- All operations, in the order in which they are listed. -/
def all : List BinaryOp := [.add, .sub, .mul, .div]

/-- The character that denotes an operation. -/
def char : BinaryOp → Char
  | .add => '+'
  | .sub => '-'
  | .mul => '*'
  | .div => '/'

/-- An operation's character as a text. -/
def symbol (op : BinaryOp) : String := op.char.toString

/-- Operations that bind the operands of a sum. -/
def isAdditive : BinaryOp → Bool
  | .add | .sub => true
  | .mul | .div => false

end BinaryOp

/-- The one keyword. -/
def printWord : String := "print"

/-- The kinds of token. -/
inductive Kind
  | integer
  | eof
  | op (o : BinaryOp)
  | lparen
  | rparen
  | print
deriving DecidableEq

namespace Kind

/-- All kinds, in the order in which they are listed. -/
def all : List Kind := [.integer, .eof] ++ BinaryOp.all.map .op ++ [.lparen, .rparen, .print]

/-- The name of a kind in token listings and error details. -/
def name : Kind → String
  | .integer => "INTEGER_CONST"
  | .eof => "EOF"
  | .op .add => "PLUS"
  | .op .sub => "MINUS"
  | .op .mul => "MUL"
  | .op .div => "DIV"
  | .lparen => "LPAREN"
  | .rparen => "RPAREN"
  | .print => "PRINT"

/-- How a kind is spelled in error messages: its source text if that is fixed, else its name. -/
def spelling : Kind → String
  | .op o => o.symbol
  | .lparen => "("
  | .rparen => ")"
  | .print => printWord
  | kind => kind.name

/-- The kind of a given name. -/
def ofName? (name : String) : Option Kind := all.find? (·.name == name)

end Kind

/-- The value that a token or a tree node carries. -/
inductive Payload
  | number (n : Int)
  | text (s : String)
  | absent
deriving DecidableEq

namespace Payload

/-- A value as it stands in a message. -/
def plain : Payload → String
  | .number n => toString n
  | .text s => s
  | .absent => "None"

/-- A value as it stands in a token listing, where texts are quoted. -/
def listed : Payload → String
  | .number n => toString n
  | .text s => Text.quoted s
  | .absent => "None"

end Payload

/-- What a token reads. -/
inductive Lexeme
  | integer (value : Nat)
  | op (o : BinaryOp)
  | lparen
  | rparen
  | print
  | eof
deriving DecidableEq

namespace Lexeme

/-- The kind of a lexeme. -/
def kind : Lexeme → Kind
  | .integer _ => .integer
  | .op o => .op o
  | .lparen => .lparen
  | .rparen => .rparen
  | .print => .print
  | .eof => .eof

/-- The value of a lexeme: a number's value, nothing at the end, else the source text. -/
def payload : Lexeme → Payload
  | .integer value => .number value
  | .op o => .text o.symbol
  | .lparen => .text "("
  | .rparen => .text ")"
  | .print => .text printWord
  | .eof => .absent

/-- The value of a number, and zero for any other lexeme. -/
def magnitude : Lexeme → Nat
  | .integer value => value
  | _ => 0

/-- The lexemes of one character, in the order in which they are listed. -/
def singles : List (Char × Lexeme) :=
  BinaryOp.all.map (fun o => (o.char, .op o)) ++ [('(', .lparen), (')', .rparen)]

/-- The lexeme that a single character makes. -/
def ofChar? : Char → Option Lexeme
  | '+' => some (.op .add)
  | '-' => some (.op .sub)
  | '*' => some (.op .mul)
  | '/' => some (.op .div)
  | '(' => some .lparen
  | ')' => some .rparen
  | _ => none

end Lexeme

/-- A lexeme and the place of its first character. -/
structure Token where
  /-- What was read. -/
  lexeme : Lexeme
  /-- Where it starts. -/
  position : Position
deriving DecidableEq

/-- The kind of a token. -/
def Token.kind (t : Token) : Kind := t.lexeme.kind

/-- A token as it is listed: a kind, a value and possibly a place. -/
structure TokenLabel where
  /-- The kind. -/
  kind : Kind
  /-- The value. -/
  payload : Payload
  /-- The place, if known. -/
  position : Option Position
deriving DecidableEq

/-- The line that a token listing shows. -/
def TokenLabel.text (label : TokenLabel) : String :=
  let place := match label.position with
    | none => ""
    | some p => s!", pos={p.text}"
  s!"Token(TokenType.{label.kind.name}, {label.payload.listed}{place})"

/-- The outward form of a token. -/
def Token.label (t : Token) : TokenLabel := ⟨t.kind, t.lexeme.payload, some t.position⟩

end LineCalc
