import LineCalc.Text.Blank

/-!
# Module headers

A module is handed as text to the compiler of the target, which reads it again. This module stands
for what that compiler takes for the text of a module. Of the text behind the name it is assumed
that it can always be read, so that only the name is looked at.

A module's name stands as it is in the comment that opens the module's text, with a quotation mark
after it. A name with line breaks leaves the comment, and the rest of it is read as code. The text
is that of a module if this code consists of comments and whole definitions, and if the mark after
the name falls into a comment or ends the last definition. Only the definitions that may stand
before those of the target are admitted: the source file's name and the target's own.

* `Header.accepts`: names that leave the text of a module readable.
-/

namespace LineCalc.IR.Header

/-- The pieces that definitions are made of. -/
inductive Piece
  | sourceFilename
  | target
  | triple
  | datalayout
  | equals
  | string
deriving DecidableEq

/-- The piece that a word is. -/
def Piece.ofWord? (word : String) : Option Piece :=
  if word = "source_filename" then some .sourceFilename
  else if word = "target" then some .target
  else if word = "triple" then some .triple
  else if word = "datalayout" then some .datalayout
  else none

/-- What the next character stands in. -/
inductive Mode
  /-- A comment that ends with its line. -/
  | lineComment
  /-- A comment that ends with a star and a slash. -/
  | blockComment
  /-- After a star in such a comment. -/
  | star
  /-- After a slash, which has to open such a comment. -/
  | slash
  /-- Between pieces. -/
  | gap
  /-- In a word with these letters, the latest first. -/
  | word (letters : List Char)
  /-- In a string. -/
  | string
deriving DecidableEq

/-- What has been read. -/
structure Scan where
  /-- What the next character stands in. -/
  mode : Mode
  /-- The pieces so far, the latest first. -/
  pieces : List Piece
deriving DecidableEq

/-- Characters that end a comment with its line. -/
def isLineEnd (c : Char) : Bool := c == '\n' || c == '\x0d'

/-- Characters that a word may start with. -/
def isWordStart (c : Char) : Bool := c.isAlpha || c == '_'

/-- Characters that may follow in a word. -/
def isWordChar (c : Char) : Bool := c.isAlphanum || c == '_'

namespace Scan

/-- Read a character between pieces. -/
def readGap (pieces : List Piece) (c : Char) : Option Scan :=
  if Text.isGap c then some ⟨.gap, pieces⟩
  else if c = ';' then some ⟨.lineComment, pieces⟩
  else if c = '/' then some ⟨.slash, pieces⟩
  else if c = '=' then some ⟨.gap, .equals :: pieces⟩
  else if c = '\x22' then some ⟨.string, pieces⟩
  else if isWordStart c then some ⟨.word [c], pieces⟩
  else none

/-- Read a character. The one after a star in a comment belongs to the star, whatever it is. -/
def read (s : Scan) (c : Char) : Option Scan :=
  match s.mode with
  | .lineComment => some { s with mode := if isLineEnd c then .gap else .lineComment }
  | .blockComment => some { s with mode := if c = '*' then .star else .blockComment }
  | .star => some { s with mode := if c = '/' then .gap else .blockComment }
  | .slash => if c = '*' then some { s with mode := .blockComment } else none
  | .gap => readGap s.pieces c
  | .word letters =>
    if isWordChar c then some { s with mode := .word (c :: letters) }
    else do
      let piece ← Piece.ofWord? (String.ofList letters.reverse)
      readGap (piece :: s.pieces) c
  | .string => some (if c = '\x22' then ⟨.gap, .string :: s.pieces⟩ else s)

end Scan

/-- Whether pieces are whole definitions, one after the other. -/
def areDefinitions : List Piece → Bool
  | [] => true
  | .sourceFilename :: .equals :: .string :: rest => areDefinitions rest
  | .target :: .triple :: .equals :: .string :: rest => areDefinitions rest
  | .target :: .datalayout :: .equals :: .string :: rest => areDefinitions rest
  | _ => false

/-- Whether a module's text can be read with this name in its first line. -/
def accepts (name : String) : Bool :=
  -- A gap right after the mark means that the mark ended a string.
  match (name.toList ++ ['\x22']).foldlM Scan.read ⟨.lineComment, []⟩ with
  | some ⟨.lineComment, pieces⟩ | some ⟨.gap, pieces⟩ => areDefinitions pieces.reverse
  | _ => false

end LineCalc.IR.Header
