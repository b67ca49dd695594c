import LineCalc.Text.Printable

/-!
# Quoted text

How a text is shown inside quotes: single quotes, unless the text holds a single quote and no
double quote. The quote in use and the backslash are escaped, tab and line breaks have their
letters, and any other character that is not printable is written by its code point.
-/

namespace LineCalc.Text

/-- The code point in base sixteen, filled up with zeros to at least `width` digits. -/
def hexDigits (width code : Nat) : String :=
  let digits := Nat.toDigits 16 code
  String.ofList (List.replicate (width - digits.length) '0' ++ digits)

/-- The quote that a text is put in. -/
def quoteFor (text : String) : Char :=
  if text.toList.contains '\x27' && !text.toList.contains '\x22' then '\x22' else '\x27'

/-- One character as it stands inside the given quotes. -/
def escape (quote c : Char) : String :=
  if c == quote || c == '\\' then "\\" ++ c.toString
  else if c == '\t' then "\\t"
  else if c == '\n' then "\\n"
  else if c == '\x0d' then "\\r"
  else if isPrintable c then c.toString
  else if c.toNat < 0x100 then "\\x" ++ hexDigits 2 c.toNat
  else if c.toNat < 0x10000 then "\\u" ++ hexDigits 4 c.toNat
  else "\\U" ++ hexDigits 8 c.toNat

/-- A text in quotes. -/
def quoted (text : String) : String :=
  let quote := quoteFor text
  let body := text.toList.map (escape quote)
  quote.toString ++ String.join body ++ quote.toString

end LineCalc.Text
