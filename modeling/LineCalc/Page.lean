import LineCalc.Text.Escaped
import LineCalc.Expr.Chart
import LineCalc.Page.Path

/-!
# Pages

A `Page` shows the chart of a tree. It has a fixed heading and layout, and loads the charting script
either from its own directory or from the network. The chart is handed to that script as data.

The text of a page is made by a charting library that is not part of the calculator. Of that text
only what depends on the calculator is modelled: the script's address, the heading, the layout and
the data, between a frame that is kept short. What is assumed of the library is the way in which it
writes the data, names in quotes and marks cut out. Whether it has room for a chart is left to the
`Platform`.
-/

namespace LineCalc

/-- Where a page loads the charting script from. -/
inductive ScriptHost
  | sameDirectory
  | network
deriving DecidableEq

/-- The address of the charting script. -/
def ScriptHost.address : ScriptHost → String
  | .sameDirectory => "echarts.min.js"
  | .network => "https://assets.pyecharts.org/assets/v6/echarts.min.js"

/-- A page that shows one chart. -/
structure Page where
  /-- Where the charting script comes from. -/
  host : ScriptHost
  /-- The chart. -/
  root : ChartNode
deriving DecidableEq

namespace Page

/-- The file that a line's page is written to. -/
def defaultPath : String := "Tree.html"

/-- The heading. -/
def title : String := "Tree"

/-- The sort of chart. -/
def seriesType : String := "tree"

/-- The direction of growth, from top to bottom. -/
def orient : String := "TB"

/-- The levels that are open at first; all of them. -/
def initialDepth : Int := -1

/-- Where a node's name stands beside it, across and along. -/
def labelPlace : String × String := ("top", "middle")

/-- The page of a chart, if there is room for it. -/
def ofChart [Platform] (host : ScriptHost) (root : ChartNode) : Except Defect Page :=
  if Platform.drawable root then .ok ⟨host, root⟩ else .error .tooDeep

/-! ### Marks

Values for the script are written with their strings in quotes. What stands between two marks in a
string is meant for the script as it is, so marks are cut out together with the quotes beside
them. -/

/-- The mark. -/
def mark : List Char := "--x_x--0_0--".toList

/-- The length of the mark that a text starts with, and of the quotes before and after it. -/
def markLength? (text : List Char) : Option Nat :=
  let opening := if text.head? = some '\x22' then 1 else 0
  (mark.isPrefixOf? (text.drop opening)).map fun rest =>
    opening + mark.length + if rest.head? = some '\x22' then 1 else 0

/-- Cut the marks out of a text from left to right, given how many characters are still to be
dropped and those that were kept, the latest first. -/
def cutMarksFrom : Nat → List Char → List Char → List Char
  | _, kept, [] => kept.reverse
  | skip + 1, kept, _ :: rest => cutMarksFrom skip kept rest
  | 0, kept, c :: rest =>
    match markLength? (c :: rest) with
    | some length => cutMarksFrom (length - 1) kept rest
    | none => cutMarksFrom 0 (c :: kept) rest

/-- A text without the marks that are found in one pass. -/
def cutMarks (text : String) : String := String.ofList (cutMarksFrom 0 [] text.toList)

/-! ### Text -/

/-- The entry for a node's name; there is none for an empty one. -/
def nameEntry (name : String) : List String :=
  if name.isEmpty then [] else [s!"\"name\": {Text.escaped name}"]

/-- The entry for what is below a node. -/
def childrenEntry (children : List String) : String :=
  "\"children\": [" ++ ", ".intercalate children ++ "]"

/-- An object with the given entries. -/
def scriptObject (entries : List String) : String :=
  "\x7b" ++ ", ".intercalate entries ++ "\x7d"

/-- A chart as a value inside a script. -/
def scriptNode : ChartNode → String
  | .leaf name => scriptObject (nameEntry name)
  | .single name child => scriptObject (nameEntry name ++ [childrenEntry [scriptNode child]])
  | .pair name left right =>
    scriptObject (nameEntry name ++ [childrenEntry [scriptNode left, scriptNode right]])

/-- The data of a page's chart as they stand in its script: a list of one node. Marks are cut out of
the data and once more out of the whole page. -/
def data (p : Page) : String := cutMarks (cutMarks ("[" ++ scriptNode p.root ++ "]"))

/-- The text of a page. -/
def html (p : Page) : String :=
  let series :=
    s!"\x7btype: {Text.escaped seriesType}, orient: {Text.escaped orient}, " ++
    s!"initialTreeDepth: {initialDepth}, label: \x7bposition: {Text.escaped labelPlace.1}, " ++
    s!"verticalAlign: {Text.escaped labelPlace.2}\x7d, data: {p.data}\x7d"
  let option := s!"\x7btitle: \x7btext: {Text.escaped title}\x7d, series: [{series}]\x7d"
  "<!DOCTYPE html>\n<html>\n<head>\n<meta charset=\"UTF-8\">\n" ++
  s!"<script src=\"{p.host.address}\"></script>\n</head>\n<body>\n" ++
  "<div id=\"chart\" style=\"width:900px; height:500px;\"></div>\n<script>\n" ++
  s!"echarts.init(document.getElementById(\"chart\")).setOption({option});\n" ++
  "</script>\n</body>\n</html>\n"

end Page

/-- The page that shows a tree. -/
def Expr.page [Platform] (e : Expr) (host : ScriptHost) : Except Defect Page := do
  Page.ofChart host (← e.chart)

/-- The page that shows a tree, to be written to the given path. -/
def Expr.render [Platform] (e : Expr) (host : ScriptHost) (path : String) : Except Defect Page := do
  let page ← e.page host
  Page.Path.check path
  return page

end LineCalc
