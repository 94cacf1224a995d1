import PathStore.Store.Basic

/-!
# Reading contents out of a store and putting them in

`tree` unfolds a value into the tree of what it holds and `load` makes fresh cells for a tree.  The
unfolding goes down as many levels as the store has cells, which reaches the leaves of every value
that does not contain itself.  An object is a leaf, whatever it holds.
-/

namespace PathStore.Store

/-! ## Unfolding -/

/-- What a value holds, down to a depth. -/
def unfold (s : Store) : Nat → Value → Data
  | _, .atom a _ => .leaf a
  | 0, .ref _ => .leaf .none
  | depth + 1, .ref r =>
    match s.get? r with
    | some (.mapping kind es) => .mapping kind (es.map fun e => (e.1, unfold s depth e.2))
    | some (.list xs) => .list (xs.map (unfold s depth))
    | some (.tuple xs) => .tuple (xs.map (unfold s depth))
    | some (.set ks) => .set ks
    | none => .leaf .none

/-- What a value holds. -/
def tree (s : Store) (v : Value) : Data :=
  s.unfold (s.size + 1) v

def same (s : Store) (v w : Value) : Bool :=
  (s.tree v).same (s.tree w)

/-- Whether two values are one and the same, and not only equal; there is only one tuple without
items. -/
def identical (s : Store) (v w : Value) : Bool :=
  v = w ||
    match s.cell? v, s.cell? w with
    | some (.tuple []), some (.tuple []) => true
    | _, _ => false

/-! ## Loading -/

mutual

/-- Puts contents into the store: every inner node gets a cell of its own. -/
def load (s : Store) : Data → Store × Value
  | .leaf a => (s, .ofAtom a)
  | .mapping kind es =>
    let (s, es) := loadEntries s es
    s.alloc (.mapping kind (Entries.ofList es))
  | .list xs =>
    let (s, xs) := loadAll s xs
    s.alloc (.list xs)
  | .tuple xs =>
    let (s, xs) := loadAll s xs
    s.alloc (.tuple xs)
  | .set ks => s.alloc (.set (MapKey.distinct ks))

def loadAll (s : Store) : List Data → Store × List Value
  | [] => (s, [])
  | x :: xs =>
    let (s, v) := load s x
    let (s, vs) := loadAll s xs
    (s, v :: vs)

def loadEntries (s : Store) : List (MapKey × Data) → Store × List (MapKey × Value)
  | [] => (s, [])
  | (k, x) :: es =>
    let (s, v) := load s x
    let (s, vs) := loadEntries s es
    (s, (k, v) :: vs)

end

end PathStore.Store
