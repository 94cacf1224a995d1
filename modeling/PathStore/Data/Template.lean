import PathStore.Data.Tree

/-!
# Templates

A template describes contents that are made when they are asked for.  Besides the contents
themselves it can hold names, in whose places the values kept under them at that moment are put.
-/

namespace PathStore

inductive Template where
  | atom (a : Atom)
  /-- The value kept under a name. -/
  | name (x : Text)
  | mapping (kind : MappingKind) (pairs : List (Template × Template))
  | list (items : List Template)
  | tuple (items : List Template)
  | set (items : List Template)
  deriving Repr, Inhabited

namespace Template

abbrev none : Template := atom .none

end Template

end PathStore
