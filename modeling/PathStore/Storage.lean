import PathStore.Store.Read
import PathStore.Store.Write
import PathStore.Store.Remove
import PathStore.Store.Clone
import PathStore.Store.Choice
import PathStore.Text.Blank

/-!
# Storages

A storage gives access by keys to the tree below one root.  A key is the written form of a path with
blank characters around it allowed; `keyPath` refuses what is no text, is blank or has no segment.
Deleting accepts all of these and does nothing then.  A snapshot is a storage over a copy of the
root.
-/

namespace PathStore

structure Storage where
  root : Value
  /-- The number under which the store knows the storage. -/
  number : Nat
  deriving DecidableEq, Repr, Inhabited

namespace Storage

def value (st : Storage) : Value :=
  .object .storage st.number

/-- Opens a storage over a root. -/
def ofRoot (s : Store) (root : Value) : Store × Storage :=
  ({ s with storages := s.storages.push root }, ⟨root, s.storages.size⟩)

/-! ## Keys -/

/-- A key that is a text and not blank, trimmed. -/
def usableKey? : Value → Option Text
  | .atom (.text key) _ => if Text.trim key = [] then none else some (Text.trim key)
  | _ => none

/-- The path that a key stands for. -/
def keyPath (s : Store) : Value → Except Fault Path
  | .atom (.text key) _ =>
    if Text.trim key = [] then .error (.blankKey key)
    else
      match Path.read (Text.trim key) with
      | .error fault => .error fault
      | .ok path => if path = [] then .error (.noSegments key) else .ok path
  | key =>
    match s.shown key with
    | .error fault => .error fault
    | .ok text => .error (.blankKey text)

/-! ## Access -/

def get (st : Storage) (s : Store) (key : Value) : Except Fault Value :=
  match keyPath s key with
  | .error fault => .error fault
  | .ok path => s.read st.root path

def set (st : Storage) (s : Store) (key new : Value) : Effect Unit :=
  match keyPath s key with
  | .error fault => .fail s fault
  | .ok path =>
    (s.write st.root path new).andThen fun s _ =>
      (Effect.done s ()).after
        ⟨.debug, "Set value at " ++ ((usableKey? key).getD [])⟩

/-- The log of a deletion that took something out; it is lost where the choice cannot be written. -/
def deletionLog (key : Text) (keep : Choice) : List LogEntry :=
  keep.text.toList.map fun text =>
    ⟨.debug, "Deleted value at " ++ key ++ " (preserve_length=" ++ text ++ ")"⟩

/-- Takes out the value under a key and returns it; with `keep` its slot stays. -/
def delete (st : Storage) (s : Store) (key : Value) (keep : Choice) : Effect Value :=
  match usableKey? key with
  | none => .done s .none
  | some trimmed =>
    match Path.read trimmed with
    | .error fault => .fail s fault
    | .ok path =>
      match s.remove st.root path keep.yes with
      | .error fault => .fail s fault
      | .ok (s, removed) =>
        ⟨s, if removed.isNone then [] else deletionLog trimmed keep, .ok removed⟩

/-- Putting a value under a key ends as writing along its path. -/
theorem set_of_keyPath {s : Store} {key : Value} {path : Path} (st : Storage)
    (h : keyPath s key = .ok path) (new : Value) :
    (st.set s key new).store = (s.write st.root path new).store ∧
      (st.set s key new).result = (s.write st.root path new).result := by
  unfold set
  rw [h]
  simp only
  cases hr : (s.write st.root path new).result with
  | error fault => exact Effect.andThen_of_error hr
  | ok u => exact Effect.andThen_of_ok hr

theorem set_of_keyPath_error {s : Store} {key : Value} {fault : Fault} (st : Storage)
    (h : keyPath s key = .error fault) (new : Value) : st.set s key new = .fail s fault := by
  rw [set, h]

/-! ## Copies -/

/-- A copy of the whole tree. -/
def copy (st : Storage) (s : Store) : Except Fault (Store × Value) :=
  s.clone st.root

/-- A storage over a copy of the whole tree. -/
def snapshot (st : Storage) (s : Store) : Except Fault (Store × Storage) :=
  (st.copy s).map fun (s, root) => ofRoot s root

end Storage

end PathStore
