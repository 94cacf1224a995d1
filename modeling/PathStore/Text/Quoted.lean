import PathStore.Text.CodePoint
import PathStore.Text.Hexadecimal
import PathStore.Text.Printable

/-!
# Quoted text

`quote` writes a text between quotation marks: apostrophes, unless the text holds an apostrophe
and no double quotation mark.  The mark in use and the backslash get a backslash before them, line
feed, carriage return and tab are `\n`, `\r`, `\t`, and every other character that is not
printable is its code point in hexadecimal digits, two, four or eight of them.  So is half of a
surrogate pair.
-/

namespace PathStore.Text

def apostrophe : Char := '\x27'

def doubleMark : Char := '\x22'

/-- How a character stands between two marks `mark`. -/
def escapedChar (mark c : Char) : List Char :=
  if c == mark || c == '\\' then ['\\', c]
  else if c == '\n' then ['\\', 'n']
  else if c == '\r' then ['\\', 'r']
  else if c == '\t' then ['\\', 't']
  else if isPrintable c then [c]
  else if c.toNat < 0x100 then '\\' :: 'x' :: hex 2 c.toNat
  else if c.toNat < 0x10000 then '\\' :: 'u' :: hex 4 c.toNat
  else '\\' :: 'U' :: hex 8 c.toNat

/-- How a code point stands between two marks `mark`. -/
def escaped (mark : Char) : CodePoint → List Char
  | .char c => escapedChar mark c
  | .half place => '\\' :: 'u' :: hex 4 (CodePoint.half place).code

/-- The mark to quote a text with. -/
def markFor (t : Text) : Char :=
  if t.contains ↑apostrophe && !t.contains ↑doubleMark then doubleMark else apostrophe

/-- The text between quotation marks, with escapes. -/
def quote (t : Text) : Text :=
  let mark := markFor t
  ofChars (mark :: t.flatMap (escaped mark) ++ [mark])

/-- How an octet stands between two marks `mark`: as an ASCII character where that is printable. -/
def escapedByte (mark : Char) (b : UInt8) : List Char :=
  if b < 0x80 then escapedChar mark (Char.ofNat b.toNat) else '\\' :: 'x' :: hex 2 b.toNat

/-- A byte string between quotation marks, after a `b`. -/
def quoteBytes (octets : List UInt8) : Text :=
  let mark := markFor (octets.map fun b => .ofNat b.toNat)
  ofChars ('b' :: mark :: octets.flatMap (escapedByte mark) ++ [mark])

end PathStore.Text
