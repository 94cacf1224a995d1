import PathStore.Text.Decimal

/-!
# Positions in a document

A cursor is what is left of a document together with the line, the column and the number of the next
character.  The character classes are those that the grammar of documents is written in.
-/

namespace PathStore.Yaml

/-- Why a document cannot be read: it is no text, its grammar is broken, its collections nest too
deep, or a number in it is out of range. -/
inductive Malformed where
  /-- Octets that encode nothing. -/
  | undecodable
  /-- A character that no document can hold. -/
  | unprintable
  /-- A character that nothing can start with. -/
  | strayCharacter
  /-- A name at the start of a line is not followed by a colon. -/
  | missingColon
  /-- A dash, question mark or colon stands where no entry can start. -/
  | misplacedIndicator
  /-- The document ends inside a quoted text. -/
  | unclosedQuote
  /-- A line that bounds documents stands in a quoted text. -/
  | dividedQuote
  /-- The document ends inside an escape. -/
  | unclosedEscape
  | badEscape
  /-- A block goes on in a way that it cannot. -/
  | brokenBlock
  /-- A flow collection is not closed or lacks a comma. -/
  | unclosedFlow
  /-- Something else stands where a value has to. -/
  | missingValue
  | severalDocuments
  /-- A reference to a value that was not named. -/
  | unknownAlias
  /-- The tokens end where more of them are needed. -/
  | cutOff
  /-- Collections stand inside one another deeper than can be followed. -/
  | tooDeep
  /-- A collection is used as a key. -/
  | collectionKey
  /-- A plain text has a meaning that no value has. -/
  | reservedText
  /-- Something other than mappings is to be merged into a mapping. -/
  | notMergeable
  /-- An integer has more digits than are read. -/
  | tooManyDigits (count : Nat)
  /-- An integer has no digits after the mark of its base. -/
  | noDigits (base : Nat)
  /-- An escape names a number above all characters. -/
  | noCharacter
  /-- An escape names a number that does not fit into 31 bits. -/
  | hugeCharacter
  /-- A place of a number in base 60 is worth more than any number of the format binary64. -/
  | hugePlace
  deriving DecidableEq, Repr, Inhabited

/-- What is said about a number that is out of range; a broken grammar has no wording of its own. -/
def Malformed.message? : Malformed → Option Text
  | tooManyDigits count => some (Text.TooManyDigits.mk count).message
  | noDigits base =>
    some ("invalid literal for int() with base " ++ Text.decimal base ++ ": ''")
  | noCharacter => some "chr() arg not in range(0x110000)"
  | hugeCharacter => some "Python int too large to convert to C int"
  | hugePlace => some "int too large to convert to float"
  | _ => none

/-- Whether a fault is found only where the document ends. -/
def Malformed.isOfEnd : Malformed → Bool
  | unclosedQuote => true
  | unclosedEscape => true
  | _ => false

/-! ## Character classes -/

def isBreak (c : Char) : Bool :=
  c == '\n' || c == '\u0085' || c == '\u2028' || c == '\u2029'

/-- Blank characters and breaks. -/
def isGap (c : Char) : Bool :=
  c == ' ' || c == '\t' || isBreak c

/-- Whether a document ends here or goes on with a gap. -/
def gapFollows : List Char → Bool
  | [] => true
  | c :: _ => isGap c

/-- Brackets, braces and commas, which end plain text inside flow collections. -/
def isFlowIndicator (c : Char) : Bool :=
  c == ',' || c == '[' || c == ']' || c == '\x7b' || c == '\x7d'

/-- Characters that a document may hold. -/
def isAllowed (c : Char) : Bool :=
  let n := c.toNat
  n == 0x9 || n == 0xA || n == 0xD || (0x20 ≤ n && n ≤ 0x7E) || n == 0x85 ||
    (0xA0 ≤ n && n ≤ 0xD7FF) || (0xE000 ≤ n && n ≤ 0xFFFD) || 0x10000 ≤ n

/-! ## Cursors -/

structure Cursor where
  rest : List Char
  line : Nat
  column : Nat
  index : Nat
  deriving Repr, Inhabited

namespace Cursor

def start (cs : List Char) : Cursor := ⟨cs, 0, 0, 0⟩

def peek (c : Cursor) : Option Char := c.rest.head?

def next (c : Cursor) : Cursor :=
  match c.rest with
  | [] => c
  | ch :: rest =>
    if isBreak ch then ⟨rest, c.line + 1, 0, c.index + 1⟩
    else if ch = '\ufeff' then ⟨rest, c.line, c.column, c.index + 1⟩
    else ⟨rest, c.line, c.column + 1, c.index + 1⟩

def skip (c : Cursor) : Nat → Cursor
  | 0 => c
  | n + 1 => c.next.skip n

/-- Goes over the characters of a class. -/
def skipWhile (c : Cursor) (p : Char → Bool) : Cursor :=
  c.skip (c.rest.takeWhile p).length

/-- Whether one of the lines `---` and `...` that bound documents starts here. -/
def atMarker (c : Cursor) (mark : Char) : Bool :=
  c.rest.take 3 == [mark, mark, mark] && gapFollows (c.rest.drop 3)

/-- Whether either of these lines starts here. -/
def atBoundary (c : Cursor) : Bool :=
  c.atMarker '-' || c.atMarker '.'

end Cursor

/-- How a break is kept inside a text: the ordinary ones as line feeds. -/
def breakText (c : Char) : Char :=
  if c == '\u2028' || c == '\u2029' then c else '\n'

/-- How a fold of lines reads: one ordinary break is a space, further ones stay. -/
def folded (first : Char) (more : List Char) : List Char :=
  (if breakText first ≠ '\n' then [first] else if more = [] then [' '] else []) ++ more

end PathStore.Yaml
