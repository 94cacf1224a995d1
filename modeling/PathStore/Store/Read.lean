import PathStore.Store.Slot

/-!
# Reading along a path

`read` follows a path from a value.  An empty slot at the end of the path reads as nothing; one
before the end is a fault that says how far the path could be gone, if the path can be written.
-/

namespace PathStore.Store

/-- Follows `rest` from `cur`, which was reached from the root of `path` by `before`. -/
def readFrom (s : Store) (path : Path) (before : Path) (cur : Value) : Path → Except Fault Value
  | [] => .ok cur
  | seg :: rest =>
    if cur.isNone then .error (.showing path (.keyNotFound path before))
    else
      match s.lookup cur seg with
      | .error fault => .error fault
      | .ok next => readFrom s path (before ++ [seg]) next rest

/-- The value at a path. -/
def read (s : Store) (root : Value) (path : Path) : Except Fault Value :=
  s.readFrom path [] root path

/-- The value at the path that a text stands for. -/
def readText (s : Store) (root : Value) (t : Text) : Except Fault Value :=
  match Path.read t with
  | .error fault => .error fault
  | .ok path => s.read root path

@[simp] theorem read_nil (s : Store) (root : Value) : s.read root [] = .ok root := rfl

end PathStore.Store
