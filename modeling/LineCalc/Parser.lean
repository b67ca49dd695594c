import LineCalc.Feed
import LineCalc.Expr

/-!
# Parsing

A program is an expression, possibly after `print`. An expression is a chain of terms joined by `+`
and `-`, a term is a chain of factors joined by `*` and `/`, and a factor is a number, a negated
number or an expression in parentheses. Chains associate to the left.

The parser looks one token ahead: it holds the current token and draws further ones from a feed. How
many parentheses may be open at one time is a parameter.
-/

namespace LineCalc

/-- The state of a parser. -/
structure Parser where
  /-- The token to be looked at. -/
  current : Token
  /-- What follows it. -/
  feed : Feed
  /-- The tokens drawn so far, the latest first. -/
  drawn : List Token
  /-- The number of outcomes that the whole feed holds. No chain is longer. -/
  size : Nat

/-- A parsing step that gives an `α` or fails, and leaves a parser in either case. -/
abbrev Parse (α : Type) := ExceptT (Failure ParseError) (StateM Parser) α

namespace Parser

/-- A parser at the first token of a feed. -/
def start (feed : Feed) : Except (Failure ParseError) Parser :=
  match feed.next with
  | (.ok token, rest) => .ok ⟨token, rest, [token], feed.pending.length + 1⟩
  | (.error failure, _) => .error (failure.map .lexical)

/-- Draw a token from the feed. The current token stays. -/
def draw : Parse Token := fun p =>
  match p.feed.next with
  | (.ok token, rest) => (.ok token, { p with feed := rest, drawn := token :: p.drawn })
  | (.error failure, rest) => (.error (failure.map .lexical), { p with feed := rest })

/-- Go on to the next token if the current one is of the given kind. -/
def eat (kind : Kind) : Parse Unit := do
  let found := (← get).current
  if found.kind = kind then
    let token ← draw
    modify fun p => { p with current := token }
  else
    throw (.error (.unexpectedToken found kind))

/-- Extend a tree to the left of a chain by the operators that `joins` admits and their operands,
at most as many as given. -/
def chain (operand : Parse Expr) (joins : BinaryOp → Bool) : Nat → Expr → Parse Expr
  | 0, left => pure left
  | count + 1, left => do
    let found := (← get).current
    match found.lexeme with
    | .op o =>
      if joins o then
        eat (.op o)
        let right ← operand
        chain operand joins count (.binary left ⟨o, .text o.symbol, some found.position⟩ right)
      else
        pure left
    | _ => pure left

/-- A number, a negated number, or an expression in parentheses. -/
def factor (inner : Parse Expr) : Parse Expr := do
  let found := (← get).current
  match found.lexeme with
  | .integer value =>
    if Word.maxValue < value then
      throw (.error (.numberTooLarge found))
    else
      eat .integer
      pure (.num ⟨value, value, some found.position⟩)
  | .op .sub =>
    eat (.op .sub)
    let number := (← get).current
    eat .integer
    let value := number.lexeme.magnitude
    pure (.num ⟨value, -value, some number.position⟩)
  | .lparen =>
    eat .lparen
    let body ← inner
    eat .rparen
    pure body
  | _ => throw (.error (.unexpectedToken found .integer))

/-- A chain of factors. -/
def term (inner : Parse Expr) : Parse Expr := do
  let first ← factor inner
  chain (factor inner) (fun o => !o.isAdditive) (← get).size first

/-- A chain of terms. -/
def sum (inner : Parse Expr) : Parse Expr := do
  let first ← term inner
  chain (term inner) (·.isAdditive) (← get).size first

/-- An expression with at most the given number of levels, its own one included. -/
def exprWithin : Nat → Parse Expr
  | 0 => throw (.defect .tooDeep)
  | levels + 1 => sum (exprWithin levels)

/-- An expression in which at most the given number of parentheses are open at one time. -/
def expr (levels : Nat) : Parse Expr := exprWithin (levels + 1)

/-- A whole program, up to the end of the text. -/
def program (levels : Nat) : Parse Expr := do
  let first := (← get).current
  let tree ←
    if first.kind = .print then do
      eat .print
      pure (.print (some first.position) (← expr levels))
    else expr levels
  let found := (← get).current
  if found.kind = .eof then
    pure tree
  else
    throw (.error (.trailingInput found))

end Parser

/-- The result of parsing a text. -/
structure Parsed where
  /-- The tokens that were drawn, in order. -/
  tokens : List Token
  /-- The tree, or why there is none. -/
  result : Except (Failure ParseError) Expr

/-- Nesting that ran out is an error of the text. -/
def ParseError.ofFailure : Failure ParseError → Failure ParseError
  | .defect .tooDeep => .error .tooDeep
  | failure => failure

/-- Parse all of a feed, with the given number of levels for parentheses. -/
def Feed.parse (feed : Feed) (levels : Nat) : Parsed :=
  match Parser.start feed with
  | .error failure => ⟨[], .error failure⟩
  | .ok parser =>
    let (result, after) := (Parser.program levels).run.run parser
    ⟨after.drawn.reverse, result.mapError ParseError.ofFailure⟩

/-- Parse a text, with the given number of levels for parentheses. -/
def parse (levels : Nat) (text : String) : Parsed := (Feed.ofText text).parse levels

end LineCalc
