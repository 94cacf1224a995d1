import PathStore.Store.Items

/-!
# Health reports

The part of a health report that does not depend on the time: the version of the service and the
number of keys at the top level of a storage, if there is one.
-/

namespace PathStore

def serviceVersion : String := "0.1.0"

/-- A health report, without a storage where nothing is given. -/
def health (s : Store) (storage : Value) : Except Fault Data := do
  let keys : Atom ← if storage.isNone then .ok .none else (s.count storage).map fun n => .int n
  return .fields
    [("status", .text "ok"), ("version", .text serviceVersion), ("storage_keys", .leaf keys)]

end PathStore
