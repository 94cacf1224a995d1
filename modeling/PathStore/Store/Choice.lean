import PathStore.Store.Items
import PathStore.Store.Shown

/-!
# Choices

A choice between yes and no is made by a value of any kind: it is yes unless the value counts as
false, and in messages it is written as that value.
-/

namespace PathStore

structure Choice where
  yes : Bool
  /-- What the choice was made by, as it is written in messages, if it can be. -/
  text : Option Text
  deriving DecidableEq, Repr

/-- The choice that a truth value makes. -/
def Choice.ofBool (b : Bool) : Choice :=
  ⟨b, (Atom.bool b).shown.toOption⟩

namespace Store

/-- A value as it is written: a text as it is, everything else as it is shown. -/
def written (s : Store) : Value → Except Fault Text
  | .atom (.text t) _ => .ok t
  | v => s.shown v

/-- The choice that a value makes. -/
def choice (s : Store) (v : Value) : Except Fault Choice := do
  return ⟨!(← s.isFalsy v), (s.written v).toOption⟩

end Store

end PathStore
