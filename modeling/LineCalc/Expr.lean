import LineCalc.Error

/-!
# Expression trees

A tree is a literal, an operation on two trees, or a print of a tree. Trees that were not read
from a text may also hold nodes of unknown sort, operators that are shown by any value, and nodes
without a place.

A long sum is one deep left edge. `Expr.leftSpine` takes it apart into its base and the operations
applied to it one after another, so that a walker needs no level of nesting for it.
-/

namespace LineCalc

/-- A number in a tree. -/
structure Literal where
  /-- The number that is written; the sign is not part of it. -/
  written : Int
  /-- The number that is meant. -/
  value : Int
  /-- Where the number is written. -/
  position : Option Position
deriving DecidableEq

/-- An operator in a tree. -/
structure Operator where
  /-- What it computes. -/
  op : BinaryOp
  /-- How it is shown. -/
  shown : Payload
  /-- Where it stands. -/
  position : Option Position
deriving DecidableEq

/-- The outward form of an operator. -/
def Operator.label (o : Operator) : TokenLabel := ⟨.op o.op, o.shown, o.position⟩

/-- An expression tree. -/
inductive Expr
  | num (literal : Literal)
  | binary (left : Expr) (operator : Operator) (right : Expr)
  | print (position : Option Position) (body : Expr)
  | unknown (name : String)
deriving DecidableEq

namespace Expr

/-- Join two trees by a token, which has to be an operator. -/
def join (left : Expr) (label : TokenLabel) (right : Expr) : Except Defect Expr :=
  match label.kind with
  | .op o => .ok (.binary left ⟨o, label.payload, label.position⟩ right)
  | _ => .error (.notOperator label)

/-! ### Left spines -/

/-- One operation along a left edge: an operator and its right operand. -/
structure Link where
  /-- The operator. -/
  operator : Operator
  /-- The operand to its right. -/
  right : Expr

/-- A left edge: the tree at its bottom and the operations above it, innermost first. -/
structure Spine where
  /-- The tree at the bottom. -/
  base : Expr
  /-- The operations applied to it in turn. -/
  links : List Link

/-- Walk down the left edge of a tree, given the operations above it. -/
def spineBelow : Expr → List Link → Spine
  | .binary left operator right, above => spineBelow left (⟨operator, right⟩ :: above)
  | base, above => ⟨base, above⟩

/-- The left edge of a tree. -/
def leftSpine (e : Expr) : Spine := e.spineBelow []

/-! ### Postfix form -/

/-- A tree's node without its subtrees. -/
inductive Node
  | num (literal : Literal)
  | binary (label : TokenLabel)
  | print (position : Option Position)
  | unknown (name : String)
deriving DecidableEq

/-- The nodes of a tree, each after its subtrees, before the given ones. -/
def postfixOnto : Expr → List Node → List Node
  | .num literal, after => .num literal :: after
  | .binary left operator right, after =>
    postfixOnto left (postfixOnto right (.binary operator.label :: after))
  | .print position body, after => postfixOnto body (.print position :: after)
  | .unknown name, after => .unknown name :: after

/-- The nodes of a tree, each after its subtrees. -/
def toPostfix (e : Expr) : List Node := e.postfixOnto []

/-- The subtrees of a tree in the order of their last nodes, before the given ones. -/
def subtreesOnto : Expr → List Expr → List Expr
  | .binary left operator right, after =>
    subtreesOnto left (subtreesOnto right (.binary left operator right :: after))
  | .print position body, after => subtreesOnto body (.print position body :: after)
  | leaf, after => leaf :: after

/-- The subtrees of a tree in the order of their last nodes; the last one is the tree itself. -/
def subtrees (e : Expr) : List Expr := e.subtreesOnto []

/-- Read nodes with a stack of finished trees. There is no tree if a node lacks its subtrees or if
not exactly one tree is left. -/
def build : List Expr → List Node → Except Defect (Option Expr)
  | [tree], [] => .ok (some tree)
  | stack, .num literal :: rest => build (.num literal :: stack) rest
  | stack, .unknown name :: rest => build (.unknown name :: stack) rest
  | body :: stack, .print position :: rest => build (.print position body :: stack) rest
  | right :: left :: stack, .binary label :: rest =>
    match join left label right with
    | .ok tree => build (tree :: stack) rest
    | .error defect => .error defect
  | _, _ => .ok none

/-- The tree whose nodes are given, each after its subtrees. -/
def ofPostfix (nodes : List Node) : Except Defect (Option Expr) := build [] nodes

end Expr

end LineCalc
