import PathStore.Yaml.Cursor

/-!
# Reading a document piece by piece

A document is octets in UTF-8.  They are decoded some thousands at a time, and what they encode is
handed on in pieces, the first of `firstPiece` characters and every other of `pieceSize`.  A piece
is read when its first character is needed, and what is wrong anywhere in it comes to light then:
octets that encode nothing, as soon as they are among those decoded for the piece, and characters
that no document can hold.  `Source.ofOctets` gives the characters before the first piece that
cannot be read, with the reason.
-/

namespace PathStore.Yaml

/-- A document as far as it can be read. -/
structure Source where
  chars : List Char
  /-- Why the document cannot be read further, if it goes on. -/
  cut : Option Malformed
  deriving Repr

/-! ## Decoding -/

/-- A character and the number of octets up to its end. -/
structure Decoded where
  char : Char
  stop : Nat
  deriving Repr

/-- How many octets follow a first one, and the least and the greatest that the next of them can
be. -/
def followers? (b : UInt8) : Option (Nat × UInt8 × UInt8) :=
  if b < 0x80 then some (0, 0, 0)
  else if b < 0xC2 then none
  else if b < 0xE0 then some (1, 0x80, 0xBF)
  else if b = 0xE0 then some (2, 0xA0, 0xBF)
  else if b = 0xED then some (2, 0x80, 0x9F)
  else if b < 0xF0 then some (2, 0x80, 0xBF)
  else if b = 0xF0 then some (3, 0x90, 0xBF)
  else if b < 0xF4 then some (3, 0x80, 0xBF)
  else if b = 0xF4 then some (3, 0x80, 0x8F)
  else none

/-- The bits of a number that the first of several octets holds. -/
def leadBits (b : UInt8) (more : Nat) : Nat :=
  b.toNat % (1 <<< (6 - more))

/-- Decodes octets, of which `stop` came before; `back` holds the characters so far, the last first,
and `open?` the number of octets that the character at hand lacks, the bounds of the next of them
and the bits so far.  The second part of the answer is the place of the octet that ends the
decoding, which is the end where a character is cut off there. -/
def decodeFrom (back : List Decoded) (stop : Nat) :
    Option (Nat × UInt8 × UInt8 × Nat) → List UInt8 → List Decoded × Option Nat
  | none, [] => (back.reverse, none)
  | some _, [] => (back.reverse, some stop)
  | none, b :: rest =>
    match followers? b with
    | none => (back.reverse, some stop)
    | some (0, _) => decodeFrom (⟨.ofNat b.toNat, stop + 1⟩ :: back) (stop + 1) none rest
    | some (more, low, high) =>
      decodeFrom back (stop + 1) (some (more, low, high, leadBits b more)) rest
  | some (more, low, high, bits), b :: rest =>
    if low ≤ b ∧ b ≤ high then
      let bits := bits * 0x40 + b.toNat % 0x40
      if more ≤ 1 then decodeFrom (⟨.ofNat bits, stop + 1⟩ :: back) (stop + 1) none rest
      else decodeFrom back (stop + 1) (some (more - 1, 0x80, 0xBF, bits)) rest
    else (back.reverse, some stop)

/-- Line ends of all three kinds as line feeds.  A carriage return is known to be a line end of its
own only when the next character is. -/
def plainLineEnds (size : Nat) : List Decoded → List Decoded
  | [] => []
  | [d] => if d.char = '\r' then [⟨'\n', size + 1⟩] else [d]
  | d :: e :: ds =>
    if d.char ≠ '\r' then d :: plainLineEnds size (e :: ds)
    else if e.char = '\n' then e :: plainLineEnds size ds
    else ⟨'\n', e.stop⟩ :: plainLineEnds size (e :: ds)

/-! ## Pieces -/

/-- The number of characters that are asked for at a time. -/
def pieceSize : Nat := 4096

/-- The number of characters in the first piece, for which they are asked twice. -/
def firstPiece : Nat := 2 * pieceSize

/-- The least number of octets that are decoded at a time. -/
def chunkSize : Nat := 8192

/-- The number of characters before the piece that a character is in. -/
def pieceStart (index : Nat) : Nat :=
  if index < firstPiece then 0
  else firstPiece + (index - firstPiece) / pieceSize * pieceSize

/-- What has been decoded when characters are asked for. -/
structure Intake where
  /-- How often characters have been asked for before. -/
  requests : Nat
  /-- The number of characters that are still asked for. -/
  wanted : Nat
  octets : Nat
  /-- The number of characters that are decoded and not handed on. -/
  ready : Nat
  /-- The octets decoded at the last time, and the characters that they were. -/
  last : Nat × Nat
  /-- The ends of the characters that are not decoded. -/
  waiting : List Nat

/-- The number of octets that are decoded next: more than usual where the last ones were few
characters. -/
def Intake.chunk (i : Intake) : Nat :=
  if i.last.2 = 0 then chunkSize else max chunkSize (i.wanted * i.last.1 / i.last.2)

/-- How often characters were asked for when octets up to the one at `bad` are decoded. -/
def requestsBefore (size bad : Nat) : Nat → Intake → Nat
  | 0, i => i.requests
  | fuel + 1, i =>
    if i.wanted ≤ i.ready then
      requestsBefore size bad fuel
        { i with requests := i.requests + 1, wanted := pieceSize, ready := i.ready - i.wanted }
    else
      let i := { i with wanted := i.wanted - i.ready, ready := 0 }
      let stop := min size (i.octets + i.chunk)
      if bad < stop ∨ i.octets = size then i.requests
      else
        let count := (i.waiting.takeWhile (· ≤ stop)).length
        requestsBefore size bad fuel
          { i with octets := stop, ready := count, last := (stop - i.octets, count),
                   waiting := i.waiting.drop count }

/-- The number of characters before the piece in which the octet at `bad` is decoded. -/
def undecodableFrom (size bad : Nat) (stops : List Nat) : Nat :=
  let requests := requestsBefore size bad (size + 2) ⟨0, pieceSize, 0, 0, (0, 0), stops⟩
  if requests < 2 then 0 else firstPiece + (requests - 2) * pieceSize

/-! ## Sources -/

/-- The document that octets are. -/
def Source.ofOctets (octets : ByteArray) : Source :=
  let (decoded, bad) := decodeFrom [] 0 none octets.toList
  let decoded := plainLineEnds octets.size decoded
  let chars := decoded.map Decoded.char
  let undecodable := bad.map fun bad =>
    (undecodableFrom octets.size bad (decoded.map Decoded.stop), Malformed.undecodable)
  let unprintable := (chars.findIdx? (!isAllowed ·)).map fun i =>
    (pieceStart i, Malformed.unprintable)
  let cut (c : Nat × Malformed) : Source := ⟨chars.take c.1, some c.2⟩
  match undecodable, unprintable with
  | none, none => ⟨chars, none⟩
  | some c, none | none, some c => cut c
  | some c, some d => cut (if c.1 ≤ d.1 then c else d)

end PathStore.Yaml
