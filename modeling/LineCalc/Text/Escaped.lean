import LineCalc.Text.Quoted

/-!
# Escaped text

How a text is written as a string of a script: in double quotes and in printable ASCII only. The
quote and the backslash are escaped, some control characters have their letters, and any other
character is written by its 16-bit units.
-/

namespace LineCalc.Text

/-- The letter that stands for a character after a backslash. -/
def escapeLetter? (c : Char) : Option Char :=
  if c == '\x22' || c == '\\' then some c
  else if c == '\x08' then some 'b'
  else if c == '\t' then some 't'
  else if c == '\n' then some 'n'
  else if c == '\x0c' then some 'f'
  else if c == '\x0d' then some 'r'
  else none

/-- The 16-bit units of a character: itself, or a pair of surrogates. -/
def units16 (c : Char) : List Nat :=
  if c.toNat < 0x10000 then [c.toNat]
  else
    let excess := c.toNat - 0x10000
    [0xD800 + excess / 0x400, 0xDC00 + excess % 0x400]

/-- A character from the space to the tilde. -/
def isPrintableAscii (c : Char) : Bool := 0x20 ≤ c.toNat && c.toNat ≤ 0x7E

/-- One character as it stands inside double quotes. -/
def escapeAscii (c : Char) : String :=
  match escapeLetter? c with
  | some letter => "\\" ++ letter.toString
  | none =>
    if isPrintableAscii c then c.toString
    else String.join ((units16 c).map fun unit => "\\u" ++ hexDigits 4 unit)

/-- A text in double quotes and in printable ASCII. -/
def escaped (text : String) : String := "\"" ++ String.join (text.toList.map escapeAscii) ++ "\""

end LineCalc.Text
