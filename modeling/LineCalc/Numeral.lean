import LineCalc.Text.Blank
import LineCalc.Text.DecimalDigit
import LineCalc.Error

/-!
# Numerals

A numeral is a run of decimal digits, possibly after a sign. The digits may be those of any script,
single underscores may stand between them, and white space may stand around the whole. Leading zeros
count as digits, and a run of more than `Numeral.maxDigits` of them is not converted. Nor is a
number of more digits written.
-/

namespace LineCalc

namespace Numeral

/-- The longest run of digits that can be converted to a number, and from one. -/
def maxDigits : Nat := 4300

/-- Whether a number has no more digits than can be written. -/
def isWritable (value : Int) : Bool := (Nat.toDigits 10 value.natAbs).length ≤ maxDigits

/-- Write a number in decimal. -/
def write (value : Int) : Except Defect String :=
  if isWritable value then .ok (toString value) else .error .unwritableNumber

/-- The number that a run of digits denotes. -/
def ofDigits (digits : List Char) : Except Defect Nat :=
  if digits.isEmpty then .error (.notNumber "")
  else if maxDigits < digits.length then .error (.overlongNumber digits.length)
  else .ok (Nat.ofDigitChars 10 digits 0)

/-- White space that may stand around a numeral; the separators of ASCII are none. -/
def isMargin (c : Char) : Bool := Text.isBlank c && !(0x1C ≤ c.toNat && c.toNat ≤ 0x1F)

/-- Whether the sign before a numeral makes it negative, and what follows the sign. -/
def splitSign : List Char → Bool × List Char
  | '-' :: rest => (true, rest)
  | '+' :: rest => (false, rest)
  | rest => (false, rest)

/-- Read a run of digits with single underscores between them, given the digits so far, the latest
first, and whether the character before was one of them. The result is the run in the digits of
ASCII and what follows it; there is none if the run is empty or an underscore is out of place. -/
def readRun : List Char → Bool → List Char → Option (List Char × List Char)
  | digits, afterDigit, [] => if afterDigit then some (digits.reverse, []) else none
  | digits, afterDigit, c :: rest =>
    match Text.digitValue? c with
    | some value => readRun (Nat.digitChar value :: digits) true rest
    | none =>
      if !afterDigit then none
      else if c = '_' then readRun digits false rest
      else some (digits.reverse, c :: rest)

/-- The number that a text denotes as a whole. -/
def ofText (text : String) : Except Defect Int := do
  let (negative, unsigned) := splitSign (text.toList.dropWhile isMargin)
  match readRun [] false unsigned with
  | none => throw (.notNumber text)
  | some (digits, rest) =>
    let magnitude ← ofDigits digits
    if rest.all isMargin then
      return if negative then -magnitude else magnitude
    else
      throw (.notNumber text)

end Numeral

/-- Write what a token or a tree node carries as it stands in a message. -/
def Payload.write : Payload → Except Defect String
  | .number n => Numeral.write n
  | payload => .ok payload.plain

end LineCalc
