/-!
# Code points and texts

A text is a list of code points.  Nearly all of them are characters; an escape can also name half of
a surrogate pair, which is a code point and no character.  `ofNat` gives the code point of a number
(`code_ofNat`), and texts are ordered by the numbers of their code points.
-/

namespace PathStore

inductive CodePoint where
  | char (c : Char)
  /-- Half of a surrogate pair, so many places after the first of them. -/
  | half (place : Fin 0x800)
  deriving DecidableEq, Repr, Inhabited

abbrev Text := List CodePoint

/-! ## Code points -/

namespace CodePoint

def code : CodePoint → Nat
  | char c => c.toNat
  | half place => 0xD800 + place

def ofNat (n : Nat) : CodePoint :=
  if h : 0xD800 ≤ n ∧ n < 0xE000 then half ⟨n - 0xD800, by omega⟩ else char (Char.ofNat n)

/-- The character that a code point is, if it is one. -/
def char? : CodePoint → Option Char
  | char c => some c
  | half _ => none

def isHalf : CodePoint → Bool
  | char _ => false
  | half _ => true

def isDigit : CodePoint → Bool
  | char c => c.isDigit
  | half _ => false

/-- Whether a number is that of a first half, which a second one can follow. -/
def isHigh (n : Nat) : Bool :=
  0xD800 ≤ n && n < 0xDC00

/-- Whether a number is that of a second half. -/
def isLow (n : Nat) : Bool :=
  0xDC00 ≤ n && n < 0xE000

/-- The code point that two halves stand for together. -/
def ofPair (high low : Nat) : CodePoint :=
  ofNat (0x10000 + (high - 0xD800) * 0x400 + (low - 0xDC00))

end CodePoint

/-! ## Texts -/

namespace Text

def ofChars (cs : List Char) : Text :=
  cs.map .char

def ofString (s : String) : Text :=
  ofChars s.toList

def chars (t : Text) : List Char :=
  t.filterMap CodePoint.char?

/-- The string that a text is, if it holds characters only. -/
def string? (t : Text) : Option String :=
  (t.mapM CodePoint.char?).map String.ofList

/-- Whether a text holds half of a surrogate pair. -/
def hasHalf (t : Text) : Bool :=
  t.any CodePoint.isHalf

/-- Whether a text comes before another. -/
def before (s t : Text) : Bool :=
  List.lex (s.map CodePoint.code) (t.map CodePoint.code)

/-- Whether a text comes before another or is equal to it. -/
def le (s t : Text) : Bool :=
  !before t s

/-- Texts with a separator between each two of them. -/
def join (separator : Text) (ts : List Text) : Text :=
  List.intercalate separator ts

end Text

instance : Coe Char CodePoint := ⟨.char⟩

instance : Coe String Text := ⟨Text.ofString⟩

/-! ## Lemmas -/

@[simp] theorem Text.chars_ofChars (cs : List Char) : (Text.ofChars cs).chars = cs := by
  induction cs with
  | nil => rfl
  | cons c cs ih => simpa [ofChars, chars, CodePoint.char?] using ih

end PathStore
