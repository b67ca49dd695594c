/-!
# Chart nodes

A chart is a tree of named nodes. It is what a tree is displayed as, and what the charting library
puts on a page.
-/

namespace LineCalc

/-- A named node with no, one or two nodes below it. -/
inductive ChartNode
  | leaf (name : String)
  | single (name : String) (child : ChartNode)
  | pair (name : String) (left right : ChartNode)
deriving DecidableEq

namespace ChartNode

/-- The name of a node. -/
def name : ChartNode → String
  | .leaf name | .single name _ | .pair name _ _ => name

/-- The nodes directly below a node. -/
def children : ChartNode → List ChartNode
  | .leaf _ => []
  | .single _ child => [child]
  | .pair _ left right => [left, right]

/-- Whether a chart has at most the given number of levels. -/
def fitsWithin : Nat → ChartNode → Bool
  | 0, _ => false
  | levels + 1, node =>
    match node with
    | .leaf _ => true
    | .single _ child => child.fitsWithin levels
    | .pair _ left right => left.fitsWithin levels && right.fitsWithin levels

end ChartNode

end LineCalc
