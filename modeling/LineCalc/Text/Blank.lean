/-!
# Blank characters

Two notions of white space. Between tokens only the space, the tab and the two line-break characters
are skipped. A whole line counts as blank by the wider Unicode notion.
-/

namespace LineCalc.Text

/-- The characters that are skipped between tokens. -/
def gapChars : String := " \t\n\x0d"

/-- A character that is skipped between tokens. -/
def isGap (c : Char) : Bool :=
  c == ' ' || c == '\t' || c == '\n' || c == '\x0d'

/-- The closed ranges of code points that are white space in a line. -/
def blankRanges : List (Nat × Nat) := [
  (0x9, 0xD), (0x1C, 0x20), (0x85, 0x85), (0xA0, 0xA0), (0x1680, 0x1680), (0x2000, 0x200A),
  (0x2028, 0x2029), (0x202F, 0x202F), (0x205F, 0x205F), (0x3000, 0x3000)]

/-- A character that is white space in a line. -/
def isBlank (c : Char) : Bool :=
  blankRanges.any fun range => range.1 ≤ c.toNat && c.toNat ≤ range.2

/-- A line that holds white space only. -/
def isBlankLine (line : String) : Bool :=
  line.toList.all isBlank

end LineCalc.Text
