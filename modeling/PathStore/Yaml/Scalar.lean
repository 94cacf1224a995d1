import PathStore.Text.Hexadecimal
import PathStore.Yaml.Cursor

/-!
# Texts in a document

Plain text ends at a colon before a gap, at a comment, at the end of its block, and inside flow
collections at their indicators.  Text in apostrophes writes an apostrophe twice; text in double
quotation marks has escapes.  Line breaks are folded in all three.
-/

namespace PathStore.Yaml

/-! ## Plain text -/

/-- The characters up to where plain text on one line has to stop. -/
def plainRun (flow : Bool) : List Char → List Char
  | [] => []
  | c :: cs =>
    if isGap c then []
    else if c = ':' && (gapFollows cs || (flow && cs.head?.any isFlowIndicator)) then []
    else if flow && (isFlowIndicator c || c == '?') then []
    else c :: plainRun flow cs

/-- Blank lines and the blanks before the next text; `none` where the document ends.  The breaks so
far are in `back`, the last first. -/
def skipBreaks : Nat → Cursor → List Char → Option (List Char × Cursor)
  | 0, c, back => some (back.reverse, c)
  | fuel + 1, c, back =>
    match c.peek with
    | some ch =>
      if ch = ' ' then skipBreaks fuel c.next back
      else if isBreak ch then
        let c := c.next
        if c.atBoundary then none else skipBreaks fuel c (breakText ch :: back)
      else some (back.reverse, c)
    | none => some (back.reverse, c)

/-- What stands between two runs of plain text, read as part of it. -/
structure PlainGap where
  /-- Nothing where the text ends here. -/
  text : List Char
  cursor : Cursor
  /-- Whether a line ended, so that a key can start. -/
  newLine : Bool

/-- The gap after a run of plain text; `fuel` bounds its length. -/
def plainGap (fuel : Nat) (c : Cursor) : PlainGap :=
  let blanks := c.rest.takeWhile (· == ' ')
  let c := c.skip blanks.length
  match c.peek with
  | some ch =>
    if isBreak ch then
      let c := c.next
      if c.atBoundary then ⟨[], c, true⟩
      else
        match skipBreaks fuel c [] with
        | some (more, c) => ⟨folded ch more, c, true⟩
        | none => ⟨[], (c.skipWhile fun d => d == ' ' || isBreak d), true⟩
    else ⟨blanks, c, false⟩
  | none => ⟨blanks, c, false⟩

/-- A text that was read, its last character first, where it ends, and whether a key can start
there. -/
structure PlainText where
  back : List Char
  cursor : Cursor
  newLine : Bool

/-- The text in its own order. -/
def PlainText.text (t : PlainText) : List Char :=
  t.back.reverse

/-- Reads plain text in a block indented by `indent` columns or in a flow collection. -/
def scanPlain (flow : Bool) (indent : Int) : Nat → PlainText → List Char → PlainText
  | 0, t, _ => t
  | fuel + 1, t, gap =>
    if t.cursor.peek = some '#' then t
    else
      let run := plainRun flow t.cursor.rest
      if run = [] then t
      else
        let g := plainGap (fuel + 1) (t.cursor.skip run.length)
        let t : PlainText := ⟨run.reverseAux (gap.reverseAux t.back), g.cursor, g.newLine⟩
        if g.text = [] || g.cursor.peek = some '#' || (!flow && g.cursor.column < indent) then t
        else scanPlain flow indent fuel t g.text

/-- The plain text at a cursor, from where `size` bounds what is left. -/
def plainText (size : Nat) (c : Cursor) (flow : Bool) (indent : Int) : PlainText :=
  scanPlain flow indent (size + 1) ⟨[], c, false⟩ []

/-! ## Quoted text -/

def escapeOf? (c : Char) : Option Char :=
  [('0', '\u0000'), ('a', '\u0007'), ('b', '\u0008'), ('t', '\t'), ('\t', '\t'), ('n', '\n'),
    ('v', '\u000b'), ('f', '\u000c'), ('r', '\r'), ('e', '\u001b'), (' ', ' '), ('"', '"'),
    ('\\', '\\'), ('/', '/'), ('N', '\u0085'), ('_', '\u00a0'), ('L', '\u2028'),
    ('P', '\u2029')].lookup c

/-- The number of hexadecimal digits of a numeric escape. -/
def escapeWidth? (c : Char) : Option Nat :=
  [('x', 2), ('u', 4), ('U', 8)].lookup c

/-- The code point that so many hexadecimal digits name. -/
def namedCodePoint (width : Nat) (digits : List Char) : Except Malformed CodePoint :=
  match Text.hexNumber? width digits with
  | some n =>
    if 0x7FFFFFFF < n then .error .hugeCharacter
    else if 0x10FFFF < n then .error .noCharacter
    else .ok (.ofNat n)
  | none =>
    .error (if digits.length < width && digits.all (Text.hexDigit? · |>.isSome) then .unclosedEscape
      else .badEscape)

/-- The breaks between two lines of quoted text, before which those in `back` came, the last first;
the end of the document must not come. -/
def quotedBreaks : Nat → Cursor → List Char → Except Malformed (List Char × Cursor)
  | 0, c, back => .ok (back.reverse, c)
  | fuel + 1, c, back =>
    if c.atBoundary then .error .dividedQuote
    else
      let c := c.skipWhile fun d => d == ' ' || d == '\t'
      match c.peek with
      | some ch =>
        if isBreak ch then quotedBreaks fuel c.next (breakText ch :: back)
        else .ok (back.reverse, c)
      | none => .ok (back.reverse, c)

/-- Characters in front of a text that is kept with its last code point first. -/
def pushAll (back : Text) (cs : List Char) : Text :=
  (Text.ofChars cs).reverseAux back

/-- Reads quoted text up to its closing mark; `back` holds what came before, the last first. -/
def scanQuoted (mark : Char) : Nat → Cursor → Text → Except Malformed (Text × Cursor)
  | 0, _, _ => .error .unclosedQuote
  | fuel + 1, c, back =>
    match c.rest with
    | [] => .error .unclosedQuote
    | ch :: rest =>
      if ch = mark then
        if mark = '\x27' && rest.head? = some mark then
          scanQuoted mark fuel (c.skip 2) (mark :: back)
        else .ok (back.reverse, c.next)
      else if isBreak ch then do
        let (more, c) ← quotedBreaks fuel c.next []
        scanQuoted mark fuel c (pushAll back (folded ch more))
      else if ch = ' ' || ch = '\t' then
        let blanks := c.rest.takeWhile fun d => d == ' ' || d == '\t'
        let c := c.skip blanks.length
        scanQuoted mark fuel c (if c.peek.any isBreak then back else pushAll back blanks)
      else if mark = '"' && ch = '\\' then
        match rest with
        | [] => .error .unclosedEscape
        | e :: digits =>
          match escapeOf? e, escapeWidth? e with
          | some x, _ => scanQuoted mark fuel (c.skip 2) (x :: back)
          | none, some width => do
            let x ← namedCodePoint width digits
            scanQuoted mark fuel (c.skip (2 + width)) (x :: back)
          | none, none =>
            if isBreak e then do
              let (more, c) ← quotedBreaks fuel (c.skip 2) []
              scanQuoted mark fuel c (pushAll back more)
            else .error .badEscape
      else scanQuoted mark fuel c.next (ch :: back)

/-- The quoted text whose opening mark is at a cursor, from where `size` bounds what is left. -/
def quotedText (size : Nat) (c : Cursor) (mark : Char) : Except Malformed (Text × Cursor) :=
  scanQuoted mark (size + 1) c.next []

end PathStore.Yaml
