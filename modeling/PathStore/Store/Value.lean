import PathStore.Data.Tree
import PathStore.Path.Segment

/-!
# Values

A value is an atom or refers to a cell of a store.  Equal atoms that were made one by one are told
apart by a number.  A view is a root with a path below it, and a registry keeps services under keys;
a store knows both by number, and atoms refer to them.
-/

namespace PathStore

/-- Where a container is kept. -/
structure Ref where
  index : Nat
  deriving DecidableEq, Repr, Inhabited

inductive Value where
  /-- An atom; `copy` tells apart equal ones that were made one by one, and is 0 where there is only
  one. -/
  | atom (a : Atom) (copy : Nat)
  | ref (r : Ref)
  deriving DecidableEq, Repr, Inhabited

namespace Value

/-- The value of an atom that is not told apart from equal ones. -/
abbrev ofAtom (a : Atom) : Value := atom a 0

/-- The absence of a value, which is a value that can be stored. -/
abbrev none : Value := ofAtom .none

abbrev text (s : Text) : Value := ofAtom (.text s)

abbrev object (kind : ObjectKind) (number : Nat) : Value := ofAtom (.object kind number)

def isNone : Value → Bool
  | atom .none _ => true
  | _ => false

end Value

structure View where
  root : Value
  path : Path
  deriving DecidableEq, Repr, Inhabited

end PathStore
