import LineCalc.ChartNode

/-!
# The platform

The calculator runs on a stack of limited size, and hands its charts to a library that puts them on
pages. How much fits on the stack and which charts the library can put on a page is decided outside
of it, so a `Platform` is a parameter of all that depends on this.

Of the stack it is assumed that it has room for two hundred open parentheses, and that of its
thousand frames each parenthesis takes two or more. Listing the tokens takes room of the same stack,
so that there may be fewer parentheses then. Of the library it is assumed that a chart decides
whether there is room for its page, and that nothing else keeps it from one.
-/

namespace LineCalc

/-- What the calculator runs on. -/
class Platform where
  /-- The parentheses that can be open at one time, if the tokens are listed and if they are not. -/
  nestingLimit (listed : Bool) : Nat
  /-- The levels of nesting that a walk over a tree may take. -/
  walkLimit : Nat
  /-- Whether the charting library has room to put a chart on a page. -/
  drawable (chart : ChartNode) : Bool
  /-- There is room for two hundred parentheses. -/
  le_nestingLimit (listed : Bool) : 200 ≤ nestingLimit listed
  /-- A thousand frames do not hold more than five hundred parentheses. -/
  nestingLimit_le (listed : Bool) : nestingLimit listed ≤ 500

export Platform (nestingLimit walkLimit)

namespace Platform

/-- A stack of a thousand frames, a few of which are taken from the start. A parenthesis takes three
frames and a level of a walk takes two; listing a token takes five for the moment. The library takes
three for a level of a chart. -/
scoped instance standard : Platform where
  nestingLimit listed := if listed then 325 else 327
  walkLimit := 495
  drawable chart := chart.fitsWithin 325
  le_nestingLimit := by decide
  nestingLimit_le := by decide

end Platform

end LineCalc
