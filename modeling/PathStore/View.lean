import PathStore.Storage

/-!
# Views

A view stands for a place below a root: a path that grows with every key it is indexed by.  Nothing
is read before it is asked for, so a view sees what is written later.  Its keys are not trimmed.
-/

namespace PathStore

/-- What a view can be indexed by. -/
inductive ViewKey where
  /-- A written path; a text without segments is a name. -/
  | text (s : Text)
  | position (i : Int)
  | segment (seg : Segment)
  /-- A truth value, which is refused. -/
  | truth (b : Bool)
  deriving DecidableEq, Repr

namespace ViewKey

/-- The segments that a key adds to a path. -/
def segments : ViewKey → Except Fault Path
  | text s =>
    match Path.read s with
    | .error fault => .error fault
    | .ok [] => .ok [.key s]
    | .ok path => .ok path
  | position i => .ok [.index i]
  | segment seg => .ok [seg]
  | truth _ => .error .boolKey

end ViewKey

/-- The view of a storage at a written path. -/
def Storage.view (st : Storage) (start : Text) : Except Fault View :=
  (Path.read start).map fun path => ⟨st.root, path⟩

namespace View

/-- The view at a key below this one. -/
def below (v : View) (key : ViewKey) : Except Fault View :=
  key.segments.map fun path => ⟨v.root, v.path ++ path⟩

def get (v : View) (s : Store) : Except Fault Value :=
  s.read v.root v.path

def set (v : View) (s : Store) (new : Value) : Effect Unit :=
  s.write v.root v.path new

def delete (v : View) (s : Store) (keep : Bool) : Except Fault (Store × Value) :=
  s.remove v.root v.path keep

def setAt (v : View) (s : Store) (key : ViewKey) (new : Value) : Effect Unit :=
  match v.below key with
  | .error fault => .fail s fault
  | .ok v' => v'.set s new

def deleteAt (v : View) (s : Store) (key : ViewKey) : Except Fault Store :=
  match v.below key with
  | .error fault => .error fault
  | .ok v' => (v'.delete s false).map Prod.fst

end View

end PathStore
