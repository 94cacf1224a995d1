import PathStore.Store.Slot

/-!
# Writing along a path

`write` puts a value at a path.  Levels that are missing are made on the way: a list where a
position comes next, a mapping where a name does.  A list that a name is asked of is replaced in its
place by a mapping of its items under `0`, `1`, …; a mapping that a position is asked of stays a
mapping.  A value that is no container is never replaced on the way.
-/

namespace PathStore.Store

/-- How a write goes on from what is in a slot. -/
inductive Passage where
  /-- Into the container that is there. -/
  | fits
  /-- Into a new cell that takes the slot. -/
  | replace (cell : Cell)
  /-- Not at all: the value that is there cannot hold anything. -/
  | blocked

/-- An empty container for the segment that comes next. -/
def fresh : Segment → Cell
  | .index _ => .list []
  | .key _ => .mapping .plain []

def assignFresh (s : Store) (cur : Value) (seg : Segment) (cell : Cell) : Effect Value :=
  let (s', v) := s.alloc cell
  match s'.assign cur seg v with
  | .ok s'' => .done s'' v
  | .error fault => .fail s fault

/-- How a write goes on from what is in a slot to a container that can hold `next`. -/
def passage (s : Store) (slot : Value) (next : Segment) : Passage :=
  if slot.isNone then .replace (fresh next)
  else
    match s.cell? slot, next with
    | some (.mapping _ _), _ => .fits
    | some (.list _), .index _ => .fits
    | some (.list xs), .key _ => .replace (.mapping .plain (Entries.numbered 0 xs))
    | _, _ => .blocked

/-- Goes from `cur` through the slot of `seg`, the last segment of `here`, to a container that can
hold `next`.  What was gone through can be written: its positions are names in mappings or count the
items of lists. -/
def descend (s : Store) (path here : Path) (cur : Value) (seg next : Segment) : Effect Value :=
  match s.lookup cur seg with
  | .error fault => .fail s fault
  | .ok slot =>
    match s.passage slot next with
    | .fits => .done s slot
    | .replace cell =>
      (s.assignFresh cur seg cell).andThen fun s v =>
        if slot.isNone then .done s v
        else
          (Effect.done s v).after ⟨.debug, "Converted list at " ++ here.spelling ++ " to mapping"⟩
    | .blocked =>
      (Effect.fail s (.showing path (.rawValue path here next))).after
        ⟨.warning, "Refusing to overwrite raw value at " ++ here.spelling⟩

/-- Follows `rest` from `cur`, which was reached from the root of `path` by `before`, and puts `new`
at its end. -/
def writeFrom (s : Store) (path : Path) (before : Path) (cur : Value) (new : Value) :
    Path → Effect Unit
  | [] => .done s ()
  | [last] =>
    match s.assign cur last new with
    | .ok s' => .done s' ()
    | .error fault => .fail s fault
  | seg :: next :: rest =>
    (s.descend path (before ++ [seg]) cur seg next).andThen fun s slot =>
      writeFrom s path (before ++ [seg]) slot new (next :: rest)

/-- Puts `new` at a path; nothing happens when the path is empty. -/
def write (s : Store) (root : Value) (path : Path) (new : Value) : Effect Unit :=
  s.writeFrom path [] root new path

/-- Puts `new` at the path that a text stands for; a text that stands for none is refused first. -/
def writeText (s : Store) (root : Value) (t : Text) (new : Value) : Effect Unit :=
  match Path.read t with
  | .error fault => .fail s fault
  | .ok path => s.write root path new

end PathStore.Store
