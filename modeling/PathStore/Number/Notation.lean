import PathStore.Number.Binary64
import PathStore.Text.Decimal

/-!
# Reading numbers in scientific notation

A number is written as an optional sign, digits, an optional point with further digits, and an
optional exponent.  `Scientific.read?` takes such a text apart; the grammars that restrict it
further check their own rules and then share it.
-/

namespace PathStore

/-- The number `± digits · 10 ^ exponent`. -/
structure Scientific where
  negative : Bool
  digits : Nat
  exponent : Int
  deriving DecidableEq, Repr

namespace Scientific

/-- An optional sign and what follows it; the flag says that the sign is a minus. -/
def splitSign : List Char → Bool × List Char
  | '-' :: cs => (true, cs)
  | '+' :: cs => (false, cs)
  | cs => (false, cs)

/-- An exponent, with an optional sign and at least one digit. -/
def readExponent? (cs : List Char) : Option Int :=
  let (negative, ds) := splitSign cs
  if ds ≠ [] ∧ ds.all Char.isDigit then
    some (if negative then -(Text.number ds : Int) else Text.number ds)
  else none

/-- A number of the form `[sign] digits [. digits] [e exponent]` with a digit before the exponent.
-/
def read? (cs : List Char) : Option Scientific :=
  let (negative, cs) := splitSign cs
  let whole := cs.takeWhile Char.isDigit
  let rest := cs.dropWhile Char.isDigit
  let (part, rest) := match rest with
    | '.' :: rest => (rest.takeWhile Char.isDigit, rest.dropWhile Char.isDigit)
    | _ => ([], rest)
  if whole = [] ∧ part = [] then none
  else
    let n := Text.number (whole ++ part)
    match rest with
    | [] => some ⟨negative, n, -part.length⟩
    | c :: rest =>
      if c = 'e' ∨ c = 'E' then
        (readExponent? rest).map fun e => ⟨negative, n, e - part.length⟩
      else none

def toBinary64 (s : Scientific) : Binary64 :=
  Binary64.ofDecimal s.negative s.digits s.exponent

end Scientific

namespace Binary64

/-- Reads what `Binary64.text` writes, and other decimal texts. -/
def ofText? (s : String) : Option Binary64 :=
  if s = "nan" then some nan
  else if s = "inf" then some (infinity false)
  else if s = "-inf" then some (infinity true)
  else (Scientific.read? s.toList).map Scientific.toBinary64

end Binary64

end PathStore
