import PathStore.Yaml.Token

/-!
# Nodes of a document

A node is a text, a sequence or a mapping.  `Node.ofDocument?` reads the node of a document off its
tokens; a document can hold one node or none, and nothing may follow it.  Sequences and mappings
nest to a limited depth, and one that is deeper is a fault where it starts.
-/

namespace PathStore.Yaml

inductive Node where
  | scalar (text : Text) (plain : Bool)
  | sequence (items : List Node)
  | mapping (pairs : List (Node × Node))
  deriving Repr, Inhabited

namespace Node

def missing : Node := scalar [] true

/-- Whether the first token is one of these. -/
def startsWith (tokens : List Token) (starts : List Token) : Bool :=
  tokens.head?.any starts.contains

/-- The rest after one of two tokens, or else a fault. -/
def expect (t : Token) (fault : Malformed) : List Token → Except Malformed (List Token)
  | t' :: rest => if t' = t then .ok rest else .error fault
  | [] => .error .cutOff

/-- The number of levels that are left below one that is entered. -/
def enter : Nat → Except Malformed Nat
  | 0 => .error .tooDeep
  | room + 1 => .ok room

mutual

/-- A node, for which `room` levels are left.  In a block, an indented or (with `atParent`) an
equally indented sequence may come. -/
def parse : Nat → Nat → Bool → Bool → List Token → Except Malformed (Node × List Token)
  | 0, _, _, _, _ => .error .missingValue
  | fuel + 1, room, block, atParent, tokens =>
    match tokens with
    | .scalar text plain :: rest => .ok (scalar text plain, rest)
    | .openSequence :: rest => do flowSequence fuel (← enter room) true [] rest
    | .openMapping :: rest => do flowMapping fuel (← enter room) true [] rest
    | .entry :: _ =>
      if atParent then do blockSequence fuel (← enter room) true [] tokens
      else .error .missingValue
    | .blockSequence :: rest =>
      if block then do blockSequence fuel (← enter room) false [] rest else .error .missingValue
    | .blockMapping :: rest =>
      if block then do blockMapping fuel (← enter room) [] rest else .error .missingValue
    | .reference :: _ => .error .unknownAlias
    | [] => .error .cutOff
    | _ => .error .missingValue

/-- A node, or nothing before one of the tokens `stops`. -/
def parseOr : Nat → Nat → Bool → Bool → List Token → List Token →
    Except Malformed (Node × List Token)
  | 0, _, _, _, _, _ => .error .missingValue
  | fuel + 1, room, block, atParent, stops, tokens =>
    if startsWith tokens stops then .ok (missing, tokens)
    else parse fuel room block atParent tokens

/-- The value of a pair, with nothing before one of the tokens `stops` or without a colon. -/
def parseValue : Nat → Nat → Bool → List Token → List Token →
    Except Malformed (Node × List Token)
  | 0, _, _, _, _ => .error .missingValue
  | fuel + 1, room, block, stops, tokens =>
    match tokens with
    | .value :: rest => parseOr fuel room block block stops rest
    | _ => .ok (missing, tokens)

/-- The entries of a block sequence after those in `back`, the last first; one that is indented like
its parent has no end of its own. -/
def blockSequence : Nat → Nat → Bool → List Node → List Token →
    Except Malformed (Node × List Token)
  | 0, _, _, _, _ => .error .brokenBlock
  | fuel + 1, room, atParent, back, tokens =>
    match tokens with
    | .entry :: rest => do
      let stops := if atParent then [.entry, .key, .value, .blockEnd] else [.entry, .blockEnd]
      let (item, rest) ← parseOr fuel room true false stops rest
      blockSequence fuel room atParent (item :: back) rest
    | _ =>
      if atParent then .ok (sequence back.reverse, tokens)
      else do
        let rest ← expect .blockEnd .brokenBlock tokens
        .ok (sequence back.reverse, rest)

/-- The pairs of a block mapping after those in `back`, the last first. -/
def blockMapping : Nat → Nat → List (Node × Node) → List Token →
    Except Malformed (Node × List Token)
  | 0, _, _, _ => .error .brokenBlock
  | fuel + 1, room, back, tokens =>
    match tokens with
    | .key :: rest => do
      let (key, rest) ← parseOr fuel room true true [.key, .value, .blockEnd] rest
      let (value, rest) ← parseValue fuel room true [.key, .value, .blockEnd] rest
      blockMapping fuel room ((key, value) :: back) rest
    | _ => do
      let rest ← expect .blockEnd .brokenBlock tokens
      .ok (mapping back.reverse, rest)

/-- The items of a flow sequence after those in `back`, the last first; a pair among them is a
mapping of its own. -/
def flowSequence : Nat → Nat → Bool → List Node → List Token →
    Except Malformed (Node × List Token)
  | 0, _, _, _, _ => .error .unclosedFlow
  | fuel + 1, room, first, back, tokens =>
    match tokens with
    | .closeSequence :: rest => .ok (sequence back.reverse, rest)
    | _ => do
      let tokens ← if first then .ok tokens else expect .comma .unclosedFlow tokens
      match tokens with
      | .closeSequence :: rest => .ok (sequence back.reverse, rest)
      | .key :: rest =>
        let below ← enter room
        let (key, rest) ← parseOr fuel below false false [.value, .comma, .closeSequence] rest
        let (value, rest) ← parseValue fuel below false [.comma, .closeSequence] rest
        flowSequence fuel room false (mapping [(key, value)] :: back) rest
      | _ =>
        let (item, rest) ← parse fuel room false false tokens
        flowSequence fuel room false (item :: back) rest

/-- The pairs of a flow mapping after those in `back`, the last first; a key may come without a
value. -/
def flowMapping : Nat → Nat → Bool → List (Node × Node) → List Token →
    Except Malformed (Node × List Token)
  | 0, _, _, _, _ => .error .unclosedFlow
  | fuel + 1, room, first, back, tokens =>
    match tokens with
    | .closeMapping :: rest => .ok (mapping back.reverse, rest)
    | _ => do
      let tokens ← if first then .ok tokens else expect .comma .unclosedFlow tokens
      match tokens with
      | .closeMapping :: rest => .ok (mapping back.reverse, rest)
      | .key :: rest =>
        let (key, rest) ← parseOr fuel room false false [.value, .comma, .closeMapping] rest
        let (value, rest) ← parseValue fuel room false [.comma, .closeMapping] rest
        flowMapping fuel room false ((key, value) :: back) rest
      | _ =>
        let (key, rest) ← parse fuel room false false tokens
        flowMapping fuel room false ((key, missing) :: back) rest

end

/-- What may follow the node of a document: lines of dots, and then nothing. -/
def finish (tokens : List Token) : Except Malformed Unit :=
  if tokens.all (· == .documentEnd) then .ok () else .error .severalDocuments

/-- The node of a document, for which `room` levels are left, or nothing where there are no
tokens. -/
def ofTokens? (room : Nat) (tokens : List Token) : Except Malformed (Option Node) :=
  let fuel := 4 * tokens.length + 4
  match tokens with
  | [] => .ok none
  | .documentStart :: rest =>
    if rest = [] ∨ startsWith rest [.documentStart, .documentEnd] then do
      finish rest
      .ok (some missing)
    else do
      let (node, rest) ← parse fuel room true false rest
      finish rest
      .ok (some node)
  | _ => do
    let (node, rest) ← parse fuel room true false tokens
    finish rest
    .ok (some node)

/-- The node of a document, or nothing where it is empty.  A fault of the tokens comes to light when
more of them are needed, be it only to see that the document ends. -/
def ofDocument? (room : Nat) (t : Tokens) : Except Malformed (Option Node) :=
  match ofTokens? room t.tokens, t.fault with
  | .error .cutOff, some fault => .error fault
  | .error fault, _ => .error fault
  | .ok _, some fault => .error fault
  | .ok node, none => .ok node

end Node

end PathStore.Yaml
