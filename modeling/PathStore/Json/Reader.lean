import PathStore.Data.Tree
import PathStore.Number.Notation
import PathStore.Text.Encoding
import PathStore.Text.Hexadecimal

/-!
# Reading JSON

`Json.read` gives the contents of a JSON text.  Besides the grammar it accepts `NaN`, `Infinity` and
`-Infinity`, and halves of surrogate pairs in strings.  Numbers with a point or an exponent are of
the format binary64, others are integers with a limited number of digits; of pairs with the same
name the last counts.  Arrays and objects nest to a limited depth.
-/

namespace PathStore.Json

inductive Unreadable where
  | malformed
  /-- The octets are no text in the encoding that they seem to have. -/
  | undecodable
  /-- An integer has more digits than are read. -/
  | tooManyDigits (count : Nat)
  /-- Arrays and objects nest deeper than they are read. -/
  | tooDeep
  deriving DecidableEq, Repr, Inhabited

def isSpace (c : CodePoint) : Bool :=
  c == ' ' || c == '\t' || c == '\n' || c == '\r'

def skipSpace (t : Text) : Text :=
  t.dropWhile isSpace

/-! ## Strings -/

/-- A unit of sixteen bits in four hexadecimal digits. -/
def readUnit? (t : Text) : Option (Nat × Text) := do
  let digits ← (t.take 4).mapM CodePoint.char?
  let n ← Text.hexNumber? 4 digits
  return (n, t.drop 4)

/-- The code point that one unit, or two that belong together, stand for. -/
def readCodePoint? (t : Text) : Option (CodePoint × Text) := do
  let (high, rest) ← readUnit? t
  match CodePoint.isHigh high, rest with
  | true, .char '\\' :: .char 'u' :: more =>
    match readUnit? more with
    | some (low, rest') =>
      if CodePoint.isLow low then some (.ofPair high low, rest') else some (.ofNat high, rest)
    | none => some (.ofNat high, rest)
  | _, _ => some (.ofNat high, rest)

/-- What an escape of one character stands for. -/
def escapeOf? (c : CodePoint) : Option CodePoint :=
  (c.char?.bind fun c =>
    [('"', '"'), ('\\', '\\'), ('/', '/'), ('b', '\u0008'), ('f', '\u000c'), ('n', '\n'),
      ('r', '\r'), ('t', '\t')].lookup c).map .char

/-- The text of a string up to its closing mark, and the rest; `back` holds what came before, the
last first. -/
def readString : Nat → Text → Text → Option (Text × Text)
  | 0, _, _ => none
  | fuel + 1, back, t =>
    match t with
    | [] => none
    | .char '"' :: rest => some (back.reverse, rest)
    | .char '\\' :: .char 'u' :: rest => do
      let (c, rest) ← readCodePoint? rest
      readString fuel (c :: back) rest
    | .char '\\' :: e :: rest => do
      let c ← escapeOf? e
      readString fuel (c :: back) rest
    | c :: rest => if c.code < 0x20 then none else readString fuel (c :: back) rest

/-! ## Numbers -/

/-- The characters that numbers are written in. -/
def isNumeral : CodePoint → Bool
  | .char c => c.isDigit || c == '-' || c == '+' || c == '.' || c == 'e' || c == 'E'
  | .half _ => false

/-- The digits before the point: `0`, or digits that do not start with `0`. -/
def wholeDigits (cs : List Char) : List Char :=
  match cs with
  | '0' :: _ => ['0']
  | _ => cs.takeWhile Char.isDigit

/-- A point and digits, if they come next. -/
def fractionPart (cs : List Char) : List Char :=
  match cs with
  | '.' :: rest =>
    let ds := rest.takeWhile Char.isDigit
    if ds = [] then [] else '.' :: ds
  | _ => []

/-- An exponent, if it comes next. -/
def exponentPart (cs : List Char) : List Char :=
  match cs with
  | e :: rest =>
    if e = 'e' ∨ e = 'E' then
      let sign := rest.takeWhile fun c => c == '+' || c == '-'
      let ds := (rest.drop sign.length).takeWhile Char.isDigit
      if ds = [] ∨ 1 < sign.length then [] else e :: sign ++ ds
    else []
  | [] => []

def readNumber (t : Text) : Except Unreadable (Atom × Text) :=
  let cs := Text.chars (t.takeWhile isNumeral)
  let minus : List Char := if cs.head? = some '-' then ['-'] else []
  let cs := cs.drop minus.length
  let whole := wholeDigits cs
  if whole = [] then .error .malformed
  else
    let cs := cs.drop whole.length
    let fraction := fractionPart cs
    let power := exponentPart (cs.drop fraction.length)
    let numeral := minus ++ whole ++ fraction ++ power
    let rest := t.drop numeral.length
    if fraction = [] ∧ power = [] then
      match Text.readNumber whole with
      | .error e => .error (.tooManyDigits e.count)
      | .ok n => .ok (.int (if minus = [] then n else -n), rest)
    else
      match Scientific.read? numeral with
      | some x => .ok (.float x.toBinary64, rest)
      | none => .error .malformed

/-- The words that stand for atoms. -/
def words : List (Text × Atom) :=
  [("null", .none), ("true", .bool true), ("false", .bool false), ("NaN", .float .nan),
    ("Infinity", .float (.infinity false)), ("-Infinity", .float (.infinity true))]

def readWord? (t : Text) : Option (Atom × Text) :=
  words.findSome? fun (w, a) => if w.isPrefixOf t then some (a, t.drop w.length) else none

/-! ## Values -/

mutual

/-- The value at the start of a text, where `room` further levels can be nested. -/
def readValue : Nat → Nat → Text → Except Unreadable (Data × Text)
  | 0, _, _ => .error .malformed
  | fuel + 1, room, t =>
    match t with
    | .char '"' :: rest =>
      match readString fuel [] rest with
      | some (s, rest) => .ok (.text s, rest)
      | none => .error .malformed
    | .char '[' :: rest =>
      if room = 0 then .error .tooDeep
      else
        match skipSpace rest with
        | .char ']' :: rest => .ok (.list [], rest)
        | rest => readItems fuel (room - 1) [] rest
    | .char '\x7b' :: rest =>
      if room = 0 then .error .tooDeep
      else
        match skipSpace rest with
        | .char '\x7d' :: rest => .ok (.mapping .plain [], rest)
        | rest => readPairs fuel (room - 1) [] rest
    | t =>
      match readWord? t with
      | some (a, rest) => .ok (.leaf a, rest)
      | none => do
        let (a, rest) ← readNumber t
        .ok (.leaf a, rest)

/-- The items of an array, the next of which starts here; `back` holds those before, the last
first. -/
def readItems : Nat → Nat → List Data → Text → Except Unreadable (Data × Text)
  | 0, _, _, _ => .error .malformed
  | fuel + 1, room, back, t => do
    let (item, rest) ← readValue fuel room t
    match skipSpace rest with
    | .char ',' :: rest => readItems fuel room (item :: back) (skipSpace rest)
    | .char ']' :: rest => .ok (.list (item :: back).reverse, rest)
    | _ => .error .malformed

/-- The pairs of an object, the next of which starts here; `back` holds those before, the last
first. -/
def readPairs : Nat → Nat → List (MapKey × Data) → Text →
    Except Unreadable (Data × Text)
  | 0, _, _, _ => .error .malformed
  | fuel + 1, room, back, t =>
    match t with
    | .char '"' :: rest =>
      match readString fuel [] rest with
      | none => .error .malformed
      | some (name, rest) =>
        match skipSpace rest with
        | .char ':' :: rest => do
          let (value, rest) ← readValue fuel room (skipSpace rest)
          let back := (MapKey.text name, value) :: back
          match skipSpace rest with
          | .char ',' :: rest => readPairs fuel room back (skipSpace rest)
          | .char '\x7d' :: rest => .ok (.mapping .plain (Entries.ofList back.reverse), rest)
          | _ => .error .malformed
        | _ => .error .malformed
    | _ => .error .malformed

end

/-- The contents of a JSON text that nests at most so deep. -/
def readText (depth : Nat) (t : Text) : Except Unreadable Data := do
  let (d, rest) ← readValue (2 * t.length + 2) depth (skipSpace t)
  if skipSpace rest = [] then .ok d else .error .malformed

/-- The contents of the JSON text that octets encode, if it nests at most so deep. -/
def read (depth : Nat) (octets : List UInt8) : Except Unreadable Data :=
  match (Encoding.detect octets).decode? octets with
  | some t => readText depth t
  | none => .error .undecodable

end PathStore.Json
