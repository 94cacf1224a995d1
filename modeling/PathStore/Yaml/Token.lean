import PathStore.Yaml.Scalar
import PathStore.Yaml.Source

/-!
# Tokens of a document

`Tokens.ofSource` cuts a document into tokens.  Indentation is made explicit: a block opens where an
entry stands further to the right than the block around it and closes where a line stands further to
the left.  A text turns out to be a key only when a colon follows it on the same line; the token
that announces a key is then put in before it.  A document that cannot be cut to its end still has
the tokens that were settled before the fault.  Where a document cannot be read to its end, this
comes to light when a token is cut there.
-/

namespace PathStore.Yaml

inductive Token where
  | documentStart
  | documentEnd
  | blockSequence
  | blockMapping
  | blockEnd
  | entry
  | key
  | value
  | openSequence
  | closeSequence
  | openMapping
  | closeMapping
  | comma
  /-- A reference to a value that was named before. -/
  | reference
  /-- A text; `plain` says that it stands without quotation marks. -/
  | scalar (text : Text) (plain : Bool)
  deriving DecidableEq, Repr, Inhabited

/-- A place where a key may turn out to have started. -/
structure Candidate where
  /-- The number of tokens before it. -/
  token : Nat
  /-- Whether a colon has to follow, because the block goes on with keys. -/
  required : Bool
  index : Nat
  line : Nat
  column : Nat

/-- How far a document has been cut. -/
structure Scan where
  cursor : Cursor
  /-- Why the document cannot be read further than the cursor can go, if it goes on. -/
  cut : Option Malformed
  /-- The number of characters of the document. -/
  size : Nat
  tokens : Array Token
  /-- The column of the innermost block; `-1` outside all blocks. -/
  indent : Int
  /-- The columns of the blocks around it. -/
  outer : List Int
  /-- For each open flow collection, innermost first, and for the block around them: the place where
  a key may have started. -/
  candidates : List (Option Candidate)
  /-- Whether a key can start here. -/
  keyAllowed : Bool

namespace Scan

def start (source : Source) : Scan where
  cursor := .start source.chars
  cut := source.cut
  size := source.chars.length
  tokens := #[]
  indent := -1
  outer := []
  candidates := [none]
  keyAllowed := true

def inFlow (s : Scan) : Bool :=
  1 < s.candidates.length

def emit (s : Scan) (t : Token) : Scan :=
  { s with tokens := s.tokens.push t }

def advance (s : Scan) (n : Nat) : Scan :=
  { s with cursor := s.cursor.skip n }

def allowKey (s : Scan) (allowed : Bool) : Scan :=
  { s with keyAllowed := allowed }

/-! ## Blocks -/

/-- Closes the blocks that are indented further than a column. -/
def closeBlocks (column : Int) (s : Scan) : Scan :=
  if s.inFlow then s else go s.outer s
where
  go : List Int → Scan → Scan
    | [], s => s
    | up :: outer, s =>
      if column < s.indent then
        go outer { s with indent := up, outer := outer, tokens := s.tokens.push .blockEnd }
      else s

/-- Opens a block at a column if it is further to the right than the innermost one. -/
def openBlock (s : Scan) (column : Nat) (place : Nat) (t : Token) : Scan :=
  if s.indent < column then
    { s with
      indent := column
      outer := s.indent :: s.outer
      tokens := s.tokens.insertIdxIfInBounds place t }
  else s

/-! ## Candidates for keys -/

/-- Whether a candidate can still be a key: on the same line and not too far back. -/
def isFresh (s : Scan) (k : Candidate) : Bool :=
  k.line == s.cursor.line && s.cursor.index - k.index ≤ 1024

/-- Drops candidates that can no longer be keys. -/
def dropStale (s : Scan) : Except Malformed Scan :=
  if s.candidates.any fun k => k.any fun k => !s.isFresh k && k.required then
    .error .missingColon
  else .ok { s with candidates := s.candidates.map fun k => k.filter s.isFresh }

/-- Drops the candidate of the innermost collection. -/
def dropCandidate (s : Scan) : Except Malformed Scan :=
  match s.candidates with
  | some k :: rest =>
    if k.required then .error .missingColon else .ok { s with candidates := none :: rest }
  | _ => .ok s

/-- Makes the cursor the candidate of the innermost collection if a key can start here. -/
def addCandidate (s : Scan) : Except Malformed Scan :=
  if s.keyAllowed then do
    let s ← s.dropCandidate
    let k : Candidate :=
      ⟨s.tokens.size, !s.inFlow && s.indent == s.cursor.column, s.cursor.index, s.cursor.line,
        s.cursor.column⟩
    .ok { s with candidates := some k :: s.candidates.tail }
  else .ok s

/-! ## Tokens -/

/-- Goes over blanks, comments and breaks. -/
def skipGaps : Nat → Scan → Scan
  | 0, s => s
  | fuel + 1, s =>
    let c := s.cursor.skipWhile (· == ' ')
    let c := if c.peek = some '#' then c.skipWhile (!isBreak ·) else c
    match c.peek with
    | some ch =>
      if isBreak ch then
        skipGaps fuel { s with cursor := c.next, keyAllowed := s.keyAllowed || !s.inFlow }
      else { s with cursor := c }
    | none => { s with cursor := c }

/-- A line that bounds documents. -/
def boundary (s : Scan) (t : Token) : Except Malformed Scan := do
  let s ← (s.closeBlocks (-1)).dropCandidate
  .ok (((s.allowKey false).advance 3).emit t)

def openFlow (s : Scan) (t : Token) : Except Malformed Scan := do
  let s ← s.addCandidate
  .ok (({ s with candidates := none :: s.candidates, keyAllowed := true }.advance 1).emit t)

def closeFlow (s : Scan) (t : Token) : Except Malformed Scan := do
  let s ← s.dropCandidate
  if s.inFlow then
    .ok (({ s with candidates := s.candidates.tail, keyAllowed := false }.advance 1).emit t)
  else .error .strayCharacter

def comma (s : Scan) : Except Malformed Scan := do
  let s ← (s.allowKey true).dropCandidate
  .ok ((s.advance 1).emit .comma)

def entry (s : Scan) : Except Malformed Scan := do
  if !s.inFlow && !s.keyAllowed then .error .misplacedIndicator
  else
    let s := if s.inFlow then s
      else s.openBlock s.cursor.column s.tokens.size .blockSequence
    let s ← (s.allowKey true).dropCandidate
    .ok ((s.advance 1).emit .entry)

def explicitKey (s : Scan) : Except Malformed Scan := do
  if !s.inFlow && !s.keyAllowed then .error .misplacedIndicator
  else
    let s := if s.inFlow then s
      else s.openBlock s.cursor.column s.tokens.size .blockMapping
    let s ← (s.allowKey (!s.inFlow)).dropCandidate
    .ok ((s.advance 1).emit .key)

/-- A colon before a value; what may have been a key before it is one. -/
def value (s : Scan) : Except Malformed Scan := do
  match s.candidates with
  | some k :: rest =>
    let tokens := s.tokens.insertIdxIfInBounds k.token .key
    let s := { s with candidates := none :: rest, tokens := tokens }
    let s := if s.inFlow then s else s.openBlock k.column k.token .blockMapping
    .ok (((s.allowKey false).advance 1).emit .value)
  | _ =>
    if !s.inFlow && !s.keyAllowed then .error .misplacedIndicator
    else
      let s := if s.inFlow then s
        else s.openBlock s.cursor.column s.tokens.size .blockMapping
      let s ← (s.allowKey (!s.inFlow)).dropCandidate
      .ok ((s.advance 1).emit .value)

def quoted (s : Scan) (mark : Char) : Except Malformed Scan := do
  let s ← s.addCandidate
  let (text, c) ← quotedText s.size s.cursor mark
  .ok ({ s with cursor := c, keyAllowed := false }.emit (.scalar text false))

def plain (s : Scan) : Except Malformed Scan := do
  let s ← s.addCandidate
  let t := plainText s.size s.cursor s.inFlow (s.indent + 1)
  .ok ({ s with cursor := t.cursor, keyAllowed := t.newLine }.emit
    (.scalar (.ofChars t.text) true))

/-- The characters that names are made of. -/
def isNameCharacter (c : Char) : Bool :=
  c.isAlphanum || c == '-' || c == '_'

/-- A reference by a name, which something other than a name has to follow. -/
def reference (s : Scan) : Except Malformed Scan := do
  let s ← s.addCandidate
  let c := s.cursor.next
  let after := c.skipWhile isNameCharacter
  let ends := gapFollows after.rest || after.peek.any ("?:,]\x7d%@\x60".toList.contains ·)
  if after.index = c.index || !ends then .error .strayCharacter
  else .ok ({ s with cursor := after, keyAllowed := false }.emit .reference)

/-- Whether plain text can start with `c`, followed by `rest`. -/
def startsPlain (flow : Bool) (c : Char) (rest : List Char) : Bool :=
  !(isGap c || isFlowIndicator c || "-?:#&*!|>'\"%@`".toList.contains c) ||
    (!gapFollows rest && (c == '-' || (!flow && (c == '?' || c == ':'))))

/-- The token that starts with `ch`, which `rest` follows. -/
def token (s : Scan) (ch : Char) (rest : List Char) : Except Malformed Scan :=
  let c := s.cursor
  if c.column = 0 && c.atMarker '-' then s.boundary .documentStart
  else if c.column = 0 && c.atMarker '.' then s.boundary .documentEnd
  else if ch = '[' then s.openFlow .openSequence
  else if ch = '\x7b' then s.openFlow .openMapping
  else if ch = ']' then s.closeFlow .closeSequence
  else if ch = '\x7d' then s.closeFlow .closeMapping
  else if ch = ',' then s.comma
  else if ch = '-' && gapFollows rest then s.entry
  else if ch = '?' && (s.inFlow || gapFollows rest) then s.explicitKey
  else if ch = ':' && (s.inFlow || gapFollows rest) then s.value
  else if ch = '*' then s.reference
  else if ch = '\x27' || ch = '"' then s.quoted ch
  else if startsPlain s.inFlow ch rest then s.plain
  else .error .strayCharacter

/-- The scan, unless the character after the next one is needed and cannot be read. -/
def inSight (s : Scan) : Except Malformed Scan :=
  match s.cut, s.cursor.rest with
  | some fault, [] => .error fault
  | some fault, [_] => .error fault
  | _, _ => .ok s

/-- A fault, or in its place the reason why the document does not go on where it is found. -/
def blame (s : Scan) (fault : Malformed) : Malformed :=
  if fault.isOfEnd then s.cut.getD fault else fault

/-- Cuts off the next token; `none` at the end of the document. -/
def next (s : Scan) : Except Malformed (Option Scan) := do
  let s ← (skipGaps (s.size + 1) s).inSight
  let s ← s.dropStale
  let s := s.closeBlocks s.cursor.column
  match s.cursor.rest with
  | [] => .ok none
  | ch :: rest =>
    let s ← (s.token ch rest).mapError s.blame
    some <$> s.inSight

/-- The tokens before the first that may turn out to be a key. -/
def settled (s : Scan) : List Token :=
  let pending := s.candidates.filterMap fun k => (k.filter s.isFresh).map Candidate.token
  s.tokens.toList.take (pending.foldl min s.tokens.size)

end Scan

/-- The tokens of a document, and the fault that no more of them come after, if there is one. -/
structure Tokens where
  tokens : List Token
  fault : Option Malformed

namespace Scan

/-- Cuts the rest of a document. -/
def finish : Nat → Scan → Tokens
  | 0, s => ⟨s.tokens.toList, none⟩
  | fuel + 1, s =>
    match s.next with
    | .error fault => ⟨s.settled, some fault⟩
    | .ok (some s) => finish fuel s
    | .ok none =>
      match (s.closeBlocks (-1)).dropCandidate with
      | .error fault => ⟨s.settled, some fault⟩
      | .ok s => ⟨s.tokens.toList, none⟩

end Scan

def Tokens.ofSource (source : Source) : Tokens :=
  let s := Scan.start source
  let s := if s.cursor.peek = some '\ufeff' then s.advance 1 else s
  s.finish (s.size + 1)

end PathStore.Yaml
