import PathStore.Data.Tree

/-!
# Contents as JSON carries them

`send?` gives what arrives when contents are sent as JSON.  It takes three steps.  `publish` leaves
out the entries that are not for others to see, reads byte strings as texts and makes lists of
tuples and sets; then numbers that JSON has no notation for and texts that have no encoding are
refused; at last `arrive` turns keys into names, of which the last counts where several become
equal.
-/

namespace PathStore.Json

/-- Why contents cannot be sent. -/
inductive Unsendable where
  /-- A byte string encodes no text. -/
  | notText
  /-- A tuple is the key of a mapping. -/
  | tupleKey
  /-- A number is not finite or has too many digits. -/
  | outOfRange
  /-- A text holds half of a surrogate pair. -/
  | notEncodable
  /-- Containers stand inside one another deeper than can be followed. -/
  | tooDeep
  deriving DecidableEq, Repr, Inhabited

/-! ## Publishing -/

/-- The text that a byte string encodes. -/
def decode (octets : List UInt8) : Except Unsendable Text :=
  match String.fromUTF8? ⟨octets.toArray⟩ with
  | some s => .ok (.ofString s)
  | none => .error .notText

/-- Whether a key is a name that begins with `_sa`, whose entries are not published. -/
def isPrivate : MapKey → Bool
  | .atom (.text t) => (Text.ofString "_sa").isPrefixOf t
  | _ => false

def publishAtom : Atom → Except Unsendable Atom
  | .bytes octets => (decode octets).map .text
  | a => .ok a

mutual

/-- An item of a set, or a key, as it is published on its own. -/
def publishItem : MapKey → Except Unsendable Data
  | .atom a => (publishAtom a).map .leaf
  | .tuple items => (publishItems items).map .list

def publishItems : List MapKey → Except Unsendable (List Data)
  | [] => .ok []
  | k :: ks => do return (← publishItem k) :: (← publishItems ks)

end

mutual

/-- Contents as they are published. -/
def publish : Data → Except Unsendable Data
  | .leaf a => (publishAtom a).map .leaf
  | .mapping _ es => (publishEntries es).map fun es => .mapping .plain (Entries.ofList es)
  | .list xs => (publishAll xs).map .list
  | .tuple xs => (publishAll xs).map .list
  | .set ks => (publishItems ks).map .list

def publishAll : List Data → Except Unsendable (List Data)
  | [] => .ok []
  | x :: xs => do return (← publish x) :: (← publishAll xs)

def publishEntries : List (MapKey × Data) → Except Unsendable (List (MapKey × Data))
  | [] => .ok []
  | (k, x) :: es =>
    if isPrivate k then publishEntries es
    else do
      let item ← publishItem k
      let x ← publish x
      match item with
      | .leaf a => return (.atom a, x) :: (← publishEntries es)
      | _ => .error .tupleKey

end

/-! ## What JSON can carry -/

/-- Whether an atom can be written as a number, if it is one. -/
def isInRange : Atom → Bool
  | .int i => Text.isWritable i
  | .float x => x.isFinite
  | _ => true

/-- Whether an atom can be encoded, if it is a text. -/
def isEncodable : Atom → Bool
  | .text t => !t.hasHalf
  | _ => true

/-! ## Arriving -/

/-- A number of the format binary64 as JSON writes it. -/
def numberText (x : Binary64) : Text :=
  if x.isNaN then "NaN"
  else if x.isInfinite then if x.negative then "-Infinity" else "Infinity"
  else x.text

/-- The name that a key arrives as; a tuple has none. -/
def name? : MapKey → Option Text
  | .atom (.text s) => some s
  | .atom .none => some "null"
  | .atom (.bool b) => some (if b then "true" else "false")
  | .atom (.float x) => some (numberText x)
  | .atom a => a.shown.toOption
  | .tuple _ => none

mutual

/-- Contents as they arrive. -/
def arrive : Data → Data
  | .leaf a => .leaf a
  | .mapping _ es => .mapping .plain (Entries.ofList (arriveEntries es))
  | .list xs => .list (arriveAll xs)
  | .tuple xs => .list (arriveAll xs)
  | .set ks => .set ks

def arriveAll : List Data → List Data
  | [] => []
  | x :: xs => arrive x :: arriveAll xs

def arriveEntries : List (MapKey × Data) → List (MapKey × Data)
  | [] => []
  | (k, x) :: es =>
    match name? k with
    | some s => (.text s, arrive x) :: arriveEntries es
    | none => arriveEntries es

end

/-! ## Sending -/

/-- What arrives when contents are sent, where they are at most so deep. -/
def send? (depth : Nat) (d : Data) : Except Unsendable Data := do
  if depth < d.depth then .error .tooDeep
  let d ← publish d
  if !d.allAtoms isInRange then .error .outOfRange
  else if !d.allAtoms isEncodable then .error .notEncodable
  else .ok (arrive d)

end PathStore.Json
