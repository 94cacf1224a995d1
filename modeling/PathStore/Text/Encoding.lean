import PathStore.Text.CodePoint

/-!
# Encodings

A text arrives as octets in one of five encodings.  `Encoding.detect` tells which by the zero octets
among the first four, which a text has there only in the wider encodings, provided that it starts
with ASCII characters; `Encoding.decode?` then reads the octets.  Halves of surrogate pairs are kept
where they stand alone.
-/

namespace PathStore

inductive Encoding where
  | utf8
  /-- Units of two octets, the more significant one first or last. -/
  | utf16 (bigFirst : Bool)
  /-- Units of four octets, the most significant one first or last. -/
  | utf32 (bigFirst : Bool)
  deriving DecidableEq, Repr

namespace Encoding

def detect : List UInt8 → Encoding
  | a :: b :: c :: d :: _ =>
    if a = 0 then if b = 0 then utf32 true else utf16 true
    else if b = 0 then if c = 0 ∧ d = 0 then utf32 false else utf16 false
    else utf8
  | [a, b] => if a = 0 then utf16 true else if b = 0 then utf16 false else utf8
  | _ => utf8

/-- The number that octets stand for, the most significant one first. -/
def unit (octets : List UInt8) : Nat :=
  octets.foldl (fun n b => 0x100 * n + b.toNat) 0

/-- The number that octets stand for in an order. -/
def ordered (bigFirst : Bool) (octets : List UInt8) : Nat :=
  unit (if bigFirst then octets else octets.reverse)

/-- Units of two octets; an odd octet is left over from none. -/
def units16? (bigFirst : Bool) : List UInt8 → Option (List Nat)
  | [] => some []
  | a :: b :: rest => (units16? bigFirst rest).map (ordered bigFirst [a, b] :: ·)
  | _ => none

def units32? (bigFirst : Bool) : List UInt8 → Option (List Nat)
  | [] => some []
  | a :: b :: c :: d :: rest => (units32? bigFirst rest).map (ordered bigFirst [a, b, c, d] :: ·)
  | _ => none

/-- The code points of units of two octets, where two halves that follow each other make one. -/
def join : List Nat → Text
  | [] => []
  | [n] => [.ofNat n]
  | n :: m :: rest =>
    if CodePoint.isHigh n && CodePoint.isLow m then .ofPair n m :: join rest
    else .ofNat n :: join (m :: rest)

/-- The text that octets encode; a mark of the order of octets in front of UTF-8 is no part of it.
-/
def decode? (octets : List UInt8) : Encoding → Option Text
  | utf8 =>
    (String.fromUTF8? ⟨octets.toArray⟩).map fun s =>
      match s.toList with
      | '\ufeff' :: cs => .ofChars cs
      | cs => .ofChars cs
  | utf16 bigFirst => (units16? bigFirst octets).map join
  | utf32 bigFirst =>
    match units32? bigFirst octets with
    | some units =>
      if units.all (· < 0x110000) then some (units.map .ofNat) else none
    | none => none

end Encoding

end PathStore
