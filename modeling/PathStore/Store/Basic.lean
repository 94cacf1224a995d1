import PathStore.Registry

/-!
# Stores of containers

A store keeps the contents of containers and of tuples; a value is an atom or refers to a cell of
the store.  The same cell can be referred to from many places, and what is written to it is seen
from all of them.  New cells are added at the end (`alloc`), so references stay valid.  Beside the
cells a store keeps the objects that atoms refer to: the roots of storages, views and registries,
each by its number.
-/

namespace PathStore

/-- The contents of a container or of a tuple. -/
inductive Cell where
  | mapping (kind : MappingKind) (entries : Entries Value)
  | list (items : List Value)
  | tuple (items : List Value)
  | set (items : List MapKey)
  deriving Repr, Inhabited

namespace Cell

/-- The name of the kind of cell in messages. -/
def kindName : Cell → String
  | mapping .plain _ => "dict"
  | mapping .custom _ => "OMap"
  | list _ => "list"
  | tuple _ => "tuple"
  | set _ => "set"

/-- Whether a path can lead through the cell. -/
def isContainer : Cell → Bool
  | mapping _ _ => true
  | list _ => true
  | _ => false

end Cell

structure Store where
  cells : Array Cell
  /-- The roots of the storages. -/
  storages : Array Value
  views : Array View
  registries : Array Registry
  /-- How many atoms have been made one by one. -/
  marks : Nat
  deriving Repr, Inhabited

namespace Store

def empty : Store := ⟨#[], #[], #[], #[], 0⟩

def size (s : Store) : Nat :=
  s.cells.size

def get? (s : Store) (r : Ref) : Option Cell :=
  s.cells[r.index]?

def put (s : Store) (r : Ref) (c : Cell) : Store :=
  { s with cells := s.cells.setIfInBounds r.index c }

/-- The store with a further cell, and the reference to it. -/
def alloc (s : Store) (c : Cell) : Store × Value :=
  ({ s with cells := s.cells.push c }, .ref ⟨s.cells.size⟩)

/-- The cell that a value refers to. -/
def cell? (s : Store) : Value → Option Cell
  | .atom _ _ => none
  | .ref r => s.get? r

/-- Whether a path can lead through the value. -/
def isContainer (s : Store) (v : Value) : Bool :=
  (s.cell? v).any Cell.isContainer

/-- The name of the kind of value in messages. -/
def kindName (s : Store) : Value → String
  | .atom a _ => a.kindName
  | .ref r => ((s.get? r).map Cell.kindName).getD "object"

/-- The values of all objects and cells, which no chain of references without a circle exceeds. -/
def extent (s : Store) : Nat :=
  s.cells.size + s.storages.size + s.views.size + s.registries.size

/-! ## Objects -/

def root (s : Store) (storage : Nat) : Value :=
  s.storages[storage]?.getD .none

def view (s : Store) (n : Nat) : View :=
  s.views[n]?.getD default

def registry (s : Store) (n : Nat) : Registry :=
  s.registries[n]?.getD .empty

/-- The store with a further view, and the atom that refers to it. -/
def addView (s : Store) (v : View) : Store × Value :=
  ({ s with views := s.views.push v }, .object .view s.views.size)

/-- The store with a further registry, and the atom that refers to it. -/
def addRegistry (s : Store) (r : Registry) : Store × Value :=
  ({ s with registries := s.registries.push r }, .object .container s.registries.size)

/-- The store with one registry changed. -/
def modifyRegistry (s : Store) (n : Nat) (f : Registry → Registry) : Store :=
  { s with registries := s.registries.modify n f }

/-! ## Lemmas -/

@[simp] theorem size_put (s : Store) (r : Ref) (c : Cell) : (s.put r c).size = s.size := by
  simp [size, put]

@[simp] theorem size_alloc (s : Store) (c : Cell) : (s.alloc c).1.size = s.size + 1 := by
  simp [size, alloc]

theorem get?_put (s : Store) (r r' : Ref) (c : Cell) :
    (s.put r c).get? r' = if r = r' ∧ r.index < s.size then some c else s.get? r' := by
  cases r
  cases r'
  simp only [get?, put, size, Array.getElem?_setIfInBounds, Ref.mk.injEq]
  grind

theorem get?_alloc (s : Store) (c : Cell) (r : Ref) :
    (s.alloc c).1.get? r = if r.index = s.size then some c else s.get? r := by
  simp only [get?, alloc, size, Array.getElem?_push]
  rfl

end Store

end PathStore
