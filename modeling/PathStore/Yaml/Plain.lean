import PathStore.Data.Atom
import PathStore.Number.Arithmetic
import PathStore.Number.Notation
import PathStore.Text.Hexadecimal
import PathStore.Yaml.Cursor

/-!
# What plain texts mean

A plain text of certain forms means nothing, a truth value, an integer or a number of the format
binary64; every other one means itself.  `plainAtom` tells which.  Integers are written in base 2,
8, 10, 16 or 60, numbers in base 10 or 60.
-/

namespace PathStore.Yaml

def isNull (s : String) : Bool :=
  ["", "~", "null", "Null", "NULL"].contains s

def truth? (s : String) : Option Bool :=
  if ["yes", "Yes", "YES", "true", "True", "TRUE", "on", "On", "ON"].contains s then some true
  else if ["no", "No", "NO", "false", "False", "FALSE", "off", "Off", "OFF"].contains s then
    some false
  else none

/-- Whether a text has a meaning of its own that no value has: it asks for a merge or for a default
value. -/
def isReserved (s : String) : Bool :=
  s == "<<" || s == "="

/-! ## Digits -/

/-- The digits of a numeral, whose groups may be set apart by underscores. -/
def ungroup (cs : List Char) : List Char :=
  cs.filter (· != '_')

def isGrouped (isDigit : Char → Bool) (cs : List Char) : Bool :=
  cs.all fun c => isDigit c || c == '_'

/-- Whether a part after a colon is below sixty, in one or two digits. -/
def isSixtieth (ds : List Char) : Bool :=
  match ds with
  | [d] => d.isDigit
  | [t, d] => '0' ≤ t && t ≤ '5' && d.isDigit
  | _ => false

/-- The pieces of a text between colons. -/
def pieces (cs : List Char) : List (List Char) :=
  cs.splitOn ':'

/-! ## Integers -/

/-- The number that digits of a base stand for; there has to be one. -/
def inBase (base : Nat) (ds : List Char) : Except Malformed Nat :=
  let ds := ungroup ds
  if ds = [] then .error (.noDigits base)
  else .ok (ds.foldl (fun n d => base * n + (Text.hexDigit? d).getD 0) 0)

/-- The number that decimal digits stand for. -/
def inTens (ds : List Char) : Except Malformed Nat :=
  (Text.readNumber (ungroup ds)).mapError fun e => .tooManyDigits e.count

/-- The number that decimal numbers between colons stand for in base 60. -/
def inSixties (n : Nat) : List (List Char) → Except Malformed Nat
  | [] => .ok n
  | ds :: parts => do inSixties (60 * n + (← inTens ds)) parts

/-- A natural number in one of the notations for integers. -/
def natural? (cs : List Char) : Option (Except Malformed Nat) :=
  match cs with
  | '0' :: 'b' :: ds =>
    if ds ≠ [] && isGrouped (fun c => c == '0' || c == '1') ds then some (inBase 2 ds) else none
  | '0' :: 'x' :: ds =>
    if ds ≠ [] && isGrouped (fun c => (Text.hexDigit? c).isSome) ds then some (inBase 16 ds)
    else none
  | '0' :: ds => if isGrouped (fun c => '0' ≤ c && c ≤ '7') ds then some (inBase 8 cs) else none
  | d :: _ =>
    if '1' ≤ d && d ≤ '9' then
      match pieces cs with
      | [ds] => if isGrouped Char.isDigit ds then some (inTens ds) else none
      | ds :: parts =>
        if isGrouped Char.isDigit ds && parts.all isSixtieth then some (inSixties 0 (ds :: parts))
        else none
      | [] => none
    else none
  | [] => none

def integer? (cs : List Char) : Option (Except Malformed Int) :=
  let (negative, rest) := Scientific.splitSign cs
  (natural? rest).map fun r => r.map fun n => if negative then -(n : Int) else n

/-! ## Numbers of the format binary64 -/

/-- Digits, a point, further digits and an exponent with its sign. -/
def isPointed (signed : Bool) (cs : List Char) : Bool :=
  let whole := cs.takeWhile fun c => c.isDigit || c == '_'
  match cs.dropWhile fun c => c.isDigit || c == '_' with
  | '.' :: rest =>
    let part := rest.takeWhile fun c => c.isDigit || c == '_'
    let startOk := if whole = [] then !signed && part.head?.any Char.isDigit
      else whole.head?.any Char.isDigit
    let exponentOk := match rest.dropWhile fun c => c.isDigit || c == '_' with
      | [] => true
      | e :: sign :: ds =>
        (e == 'e' || e == 'E') && (sign == '+' || sign == '-') && ds ≠ [] && ds.all Char.isDigit
      | _ => false
    startOk && exponentOk
  | _ => false

/-- Whether these are the parts of a number in base 60, the last of which has a point. -/
def isPointedSixties : List (List Char) → Bool
  | ds :: part :: parts =>
    let parts := part :: parts
    let last := parts.getLast?.getD []
    ds.head?.any Char.isDigit && isGrouped Char.isDigit ds && parts.dropLast.all isSixtieth &&
      isSixtieth (last.takeWhile (· != '.')) &&
        match last.dropWhile (· != '.') with
        | '.' :: rest => isGrouped Char.isDigit rest
        | _ => false
  | _ => false

/-- The number nearest to a decimal text without a sign. -/
def decimalPart (cs : List Char) : Binary64 :=
  match Scientific.read? (ungroup cs) with
  | some x => x.toBinary64
  | none => .zero false

/-- Adds up parts in base 60 from the last to the first, rounding every product and sum; `worth` is
what the place at hand is worth, in which even nothing can stand only if it is finite. -/
def sumOfSixties (worth : Nat) (sum : Binary64) : List Binary64 → Except Malformed Binary64
  | [] => .ok sum
  | x :: xs =>
    let w := Binary64.ofNat worth
    if w.isFinite then sumOfSixties (60 * worth) (sum.add (x.mul w)) xs else .error .hugePlace

def float? (cs : List Char) : Option (Except Malformed Binary64) :=
  let (negative, rest) := Scientific.splitSign cs
  let signed := rest.length < cs.length
  if [".inf", ".Inf", ".INF"].contains (String.ofList rest) then
    some (.ok (.infinity negative))
  else if [".nan", ".NaN", ".NAN"].contains (String.ofList cs) then some (.ok .nan)
  else if isPointed signed rest then
    (Scientific.read? (ungroup cs)).map fun x => .ok x.toBinary64
  else
    let parts := pieces rest
    if isPointedSixties parts then
      let sum := sumOfSixties 1 (.zero false) (parts.map decimalPart).reverse
      some (sum.map fun x => if negative then x.opposite else x)
    else none

/-! ## Plain texts -/

/-- What a plain text means. -/
def plainAtom (s : String) : Except Malformed Atom :=
  if isNull s then .ok .none
  else if isReserved s then .error .reservedText
  else
    match truth? s with
    | some b => .ok (.bool b)
    | none =>
      match float? s.toList with
      | some r => r.map .float
      | none =>
        match integer? s.toList with
        | some r => r.map .int
        | none => .ok (.text s)

end PathStore.Yaml
