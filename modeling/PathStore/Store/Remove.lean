import PathStore.Store.Slot

/-!
# Removing what is at a path

`remove` takes the value at a path out and returns it.  Where the path leads to no slot nothing
happens.  With `keep` the slot stays and holds nothing afterwards, so that lists keep their length
and mappings their keys.
-/

namespace PathStore

variable {α : Type}

/-- Takes the value under a key out of the entries, if there is one, and returns it; with `keep` the
key stays with `fill` under it. -/
def Entries.take (fill : α) (keep : Bool) (k : MapKey) (es : Entries α) : Entries α × α :=
  match es.find? k with
  | none => (es, fill)
  | some old => (if keep then es.insert k fill else es.erase k, old)

/-- Takes the item at a position out of a list, if there is one, and returns it; with `keep` the
list keeps its length and has `fill` there. -/
def takeAt (fill : α) (keep : Bool) (xs : List α) (position : Int) : Except Fault (List α × α) :=
  if xs.length ≤ position then .ok (xs, fill)
  else
    match offset? xs.length position with
    | some n => .ok (if keep then xs.set n fill else xs.eraseIdx n, xs[n]?.getD fill)
    | none =>
      .error (if keep then beforeFirst position .indexOutOfRange .indexUnderflow
        else beforeFirst position (if xs.isEmpty then .popFromEmpty else .popOutOfRange)
          .popUnderflow)

/-- Takes the value of a slot out of a cell. -/
def Cell.take (keep : Bool) : Cell → Segment → Except Fault (Cell × Value)
  | mapping kind es, seg =>
    seg.name.map fun name =>
      let (es, old) := es.take .none keep (.text name)
      (mapping kind es, old)
  | list xs, .index p => (takeAt .none keep xs p).map fun (xs, old) => (list xs, old)
  | c, _ => .ok (c, .none)

theorem Cell.take_mapping {seg : Segment} (h : seg.isWritable = true) (keep : Bool)
    (kind : MappingKind) (es : Entries Value) :
    (mapping kind es).take keep seg =
      .ok (mapping kind (es.take .none keep (.text seg.spelling)).1,
        (es.take .none keep (.text seg.spelling)).2) := by
  rw [take, Segment.name_of_isWritable h]
  rfl

namespace Store

/-- The container that holds the last slot of a path, if the path leads to a container. -/
def holder? (s : Store) (cur : Value) : Path → Except Fault (Option Value)
  | [] => .ok (some cur)
  | [_] => .ok (some cur)
  | seg :: rest =>
    match s.lookup cur seg with
    | .error fault => .error fault
    | .ok next => if s.isContainer next then holder? s next rest else .ok none

/-- Takes the value of a slot out of a container. -/
def removeSlot (s : Store) (r : Ref) (seg : Segment) (keep : Bool) : Except Fault (Store × Value) :=
  match s.get? r with
  | some c => (c.take keep seg).map fun (c, old) => (s.put r c, old)
  | none => .ok (s, .none)

/-- Takes the value at a path out of the tree below `root`. -/
def remove (s : Store) (root : Value) (path : Path) (keep : Bool) : Except Fault (Store × Value) :=
  match path.getLast? with
  | none => .ok (s, .none)
  | some last =>
    match s.holder? root path with
    | .error fault => .error fault
    | .ok (some (.ref r)) => s.removeSlot r last keep
    | .ok _ => .ok (s, .none)

/-- Takes out the value at the path that a text stands for; a text that stands for none is refused. -/
def removeText (s : Store) (root : Value) (t : Text) (keep : Bool) :
    Except Fault (Store × Value) :=
  match Path.read t with
  | .error fault => .error fault
  | .ok path => s.remove root path keep

end Store

end PathStore
