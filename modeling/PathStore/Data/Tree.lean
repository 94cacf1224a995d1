import PathStore.Data.MapKey

/-!
# Trees

A tree is what a value holds, without the identity of its containers: what is read out of a store
and what is sent and received.  `Data.same` is equality of contents, for which the order of a
mapping's entries and of a set's items, and the class of a mapping, mean nothing.
-/

namespace PathStore

/-- The two kinds of mappings: plain ones, and those of another class, which behave alike and turn
into plain ones when they are copied. -/
inductive MappingKind where
  | plain
  | custom
  deriving DecidableEq, Repr

/-- Contents of a value. -/
inductive Data where
  | leaf (a : Atom)
  | mapping (kind : MappingKind) (entries : List (MapKey × Data))
  | list (items : List Data)
  | tuple (items : List Data)
  | set (items : List MapKey)
  deriving Repr, Inhabited

namespace Data

def empty : Data := mapping .plain []

abbrev text (s : Text) : Data := leaf (.text s)

/-- A plain mapping of names. -/
def fields (pairs : List (Text × Data)) : Data :=
  mapping .plain (pairs.map fun p => (.text p.1, p.2))

/-- Whether contents count as false where a truth value is asked for. -/
def isFalsy : Data → Bool
  | leaf a => a.isFalsy
  | mapping _ es => es.isEmpty
  | list xs => xs.isEmpty
  | tuple xs => xs.isEmpty
  | set ks => ks.isEmpty

def kindName : Data → String
  | leaf a => a.kindName
  | mapping .plain _ => "dict"
  | mapping .custom _ => "OMap"
  | list _ => "list"
  | tuple _ => "tuple"
  | set _ => "set"

/-- The key that contents can serve as; for those that can change, the name of their kind. -/
def toKey : Data → Except String MapKey
  | leaf a => .ok (.atom a)
  | tuple xs => (toKeys xs).map .tuple
  | t => .error t.kindName
where
  toKeys : List Data → Except String (List MapKey)
    | [] => .ok []
    | x :: xs => do return (← toKey x) :: (← toKeys xs)

mutual

/-- How many containers of contents stand inside one another. -/
def depth : Data → Nat
  | leaf _ => 0
  | mapping _ es => depthOfEntries es + 1
  | list xs => depthOfAll xs + 1
  | tuple xs => depthOfAll xs + 1
  | set _ => 1

def depthOfAll : List Data → Nat
  | [] => 0
  | x :: xs => max x.depth (depthOfAll xs)

def depthOfEntries : List (MapKey × Data) → Nat
  | [] => 0
  | (_, x) :: es => max x.depth (depthOfEntries es)

end

mutual

/-- Whether a condition holds for all atoms of contents, keys included. -/
def allAtoms (p : Atom → Bool) : Data → Bool
  | leaf a => p a
  | mapping _ es => allAtomsOfEntries p es
  | list xs => allAtomsOf p xs
  | tuple xs => allAtomsOf p xs
  | set ks => MapKey.allAtomsOf p ks

def allAtomsOf (p : Atom → Bool) : List Data → Bool
  | [] => true
  | x :: xs => x.allAtoms p && allAtomsOf p xs

def allAtomsOfEntries (p : Atom → Bool) : List (MapKey × Data) → Bool
  | [] => true
  | (k, x) :: es => k.allAtoms p && x.allAtoms p && allAtomsOfEntries p es

end

mutual

def same : Data → Data → Bool
  | leaf a, leaf b => a.sameKey b
  | mapping _ es, mapping _ fs => es.length == fs.length && sameEntries fs es
  | list xs, list ys => sameAll xs ys
  | tuple xs, tuple ys => sameAll xs ys
  | set ks, set ls => ks.length == ls.length && ks.all fun k => ls.any k.same
  | _, _ => false

def sameAll : List Data → List Data → Bool
  | [], [] => true
  | x :: xs, y :: ys => same x y && sameAll xs ys
  | _, _ => false

/-- Whether each of the entries has an equal one in `fs`. -/
def sameEntries (fs : Entries Data) : List (MapKey × Data) → Bool
  | [] => true
  | (k, x) :: es =>
    (match fs.find? k with
      | some y => same x y
      | none => false) && sameEntries fs es

end

end Data

end PathStore
