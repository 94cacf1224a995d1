import PathStore.Hub.Notify
import PathStore.Hub.Resolve

/-!
# The shared state

One state is shared through a registry under a fixed key: it is provided once, and found again
wherever the registry is at hand.
-/

namespace PathStore

def sharedKey : Text := "global_storage"

namespace Hub

/-- Opens a state over the given value, or over a new mapping where that is nothing or empty, and
registers it; its number is returned. -/
def provideShared (h : Hub) (registry : Nat) (initial : Value) : Hub × Except Fault Nat :=
  match h.store.isFalsy initial with
  | .error fault => (h, .error fault)
  | .ok falsy =>
    let (h, n) := h.newState (if falsy then .none else initial)
    (h.modifyRegistry registry fun r => r.register sharedKey (.object .state n), .ok n)

/-- Finds the shared state in a registry, which may be missing. -/
def useShared (h : Hub) (registry : Value) : Hub × Except Fault Value :=
  if registry.isNone then (h, .error .notProvided)
  else
    match h.store.has registry (.text sharedKey), registry with
    | .error fault, _ => (h, .error fault)
    | .ok false, _ => (h, .error .notProvided)
    | .ok true, .atom (.object .container n) _ => h.resolve n sharedKey
    | .ok true, v => (h, .error (.noAttribute (h.store.kindName v) "get"))

end Hub

end PathStore
