import PathStore.Data.Tree
import PathStore.Yaml.Node
import PathStore.Yaml.Plain

/-!
# Contents of a document

`read` gives the contents of a document.  Plain texts have the meaning that their form gives them,
quoted ones mean themselves.  A later pair of a mapping replaces the value of an earlier one with
the same key, and the pairs of mappings under the key `<<` come before all others.

Contents are made level by level from the outside in, so of several faults that of the outermost
level counts, and on one level the first (`Finding.first`).
-/

namespace PathStore.Yaml

/-! ## Merged mappings -/

namespace Node

/-- Whether a node is the key that asks for a merge. -/
def asksMerge : Node → Bool
  | scalar text true => text = Text.ofString "<<"
  | _ => false

/-- A node as the key of a pair, where `=` means itself. -/
def asKey : Node → Node
  | scalar text plain => scalar text (plain && text ≠ Text.ofString "=")
  | n => n

mutual

/-- The pairs of a mapping: those merged into it and its own. -/
def split : List (Node × Node) → Except Malformed (List (Node × Node) × List (Node × Node))
  | [] => .ok ([], [])
  | (k, v) :: ps => do
    if k.asksMerge then
      let here ← merged v
      let (more, own) ← split ps
      .ok (here ++ more, own)
    else
      let (more, own) ← split ps
      .ok (more, (k.asKey, v) :: own)

/-- The pairs that a node adds to the mapping that it is merged into. -/
def merged : Node → Except Malformed (List (Node × Node))
  | mapping ps => (split ps).map fun p => p.1 ++ p.2
  | sequence ns => (mergedAll ns).map fun pss => pss.reverse.flatten
  | _ => .error .notMergeable

def mergedAll : List Node → Except Malformed (List (List (Node × Node)))
  | [] => .ok []
  | mapping ps :: ns => do
    let (more, own) ← split ps
    .ok ((more ++ own) :: (← mergedAll ns))
  | _ :: _ => .error .notMergeable

end

end Node

/-! ## Findings -/

/-- A fault and the level on which it is found. -/
structure Finding where
  level : Nat
  fault : Malformed

/-- The fault that counts: the first of the outermost level that has one. -/
def Finding.first (findings : List Finding) : Option Malformed :=
  let outermost := findings.foldl (fun l f => min l f.level) (findings.head?.elim 0 level)
  (findings.find? fun f => f.level == outermost).map fault

/-- Contents, as far as they can be made, with what is wrong in them. -/
structure Made (α : Type) where
  value : α
  findings : List Finding

/-! ## Contents -/

def scalarContents (level : Nat) (text : Text) (plain : Bool) : Made Data :=
  if plain then
    match plainAtom (String.ofList text.chars) with
    | .ok a => ⟨.leaf a, []⟩
    | .error fault => ⟨.leaf .none, [⟨level, fault⟩]⟩
  else ⟨.text text, []⟩

/-- The key that contents are. -/
def keyOf (level : Nat) (d : Data) : Made MapKey :=
  match d with
  | .leaf a => ⟨.atom a, []⟩
  | _ => ⟨.atom .none, [⟨level, .collectionKey⟩]⟩

/-- The contents of a node on a level, going down to a depth. -/
def contentsTo : Nat → Nat → Node → Made Data
  | _, level, .scalar text plain => scalarContents level text plain
  | 0, level, _ => ⟨.leaf .none, [⟨level, .cutOff⟩]⟩
  | depth + 1, level, .sequence items =>
    let made := items.map (contentsTo depth (level + 1))
    ⟨.list (made.map Made.value), made.flatMap Made.findings⟩
  | depth + 1, level, .mapping pairs =>
    match Node.split pairs with
    | .error fault => ⟨.leaf .none, [⟨level + 1, fault⟩]⟩
    | .ok (merged, own) =>
      let made := (merged ++ own).map fun p =>
        let key := contentsTo depth (level + 1) p.1
        let name := keyOf (level + 1) key.value
        let value := contentsTo depth (level + 1) p.2
        (⟨(name.value, value.value), key.findings ++ name.findings ++ value.findings⟩ :
          Made (MapKey × Data))
      ⟨.mapping .plain (Entries.ofList (made.map Made.value)), made.flatMap Made.findings⟩

mutual

def Node.depth : Node → Nat
  | .scalar _ _ => 0
  | .sequence items => depthOfAll items + 1
  | .mapping pairs => depthOfPairs pairs + 1

def depthOfAll : List Node → Nat
  | [] => 0
  | n :: ns => max n.depth (depthOfAll ns)

def depthOfPairs : List (Node × Node) → Nat
  | [] => 0
  | (k, v) :: ps => max (max k.depth v.depth) (depthOfPairs ps)

end

def Node.contents (n : Node) : Except Malformed Data :=
  let made := contentsTo n.depth 0 n
  match Finding.first made.findings with
  | some fault => .error fault
  | none => .ok made.value

/-! ## Documents -/

/-- The contents of the document that octets are, if it nests at most so deep; an empty one holds
nothing. -/
def read (depth : Nat) (octets : ByteArray) : Except Malformed Data := do
  match ← Node.ofDocument? depth (.ofSource (.ofOctets octets)) with
  | none => .ok (.leaf .none)
  | some node => node.contents

end PathStore.Yaml
