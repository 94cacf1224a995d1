import PathStore.Text.Decimal

/-!
# Paths and their segments

A path is a list of segments.  A segment names an entry of a mapping or gives a position in a list;
positions may be negative, and then count from the end of the list.  A segment is spelled with the
decimal text of its position, however long that is; whether it is short enough to be written is
`isWritable`.
-/

namespace PathStore

inductive Segment where
  /-- The entry of a mapping under this name. -/
  | key (name : Text)
  /-- The item of a list at this position. -/
  | index (position : Int)
  deriving DecidableEq, Repr, Inhabited

abbrev Path := List Segment

namespace Segment

def isIndex : Segment → Bool
  | key _ => false
  | index _ => true

/-- Whether the segment is written with few enough digits. -/
def isWritable : Segment → Bool
  | key _ => true
  | index position => Text.isWritable position

/-- The segment as it stands in a mapping: a position is looked up by its decimal text. -/
def spelling : Segment → Text
  | key name => name
  | index position => Text.decimal position

/-- The segment as it stands in messages: positions are in brackets. -/
def bracketed : Segment → Text
  | key name => name
  | index position => "[" ++ Text.decimal position ++ "]"

@[simp] theorem spelling_key (k : Text) : (key k).spelling = k := rfl

end Segment

namespace Path

def isWritable (path : Path) : Bool :=
  path.all Segment.isWritable

/-- The spelling of a path; `started` says that some text comes before it. -/
def spellingAfter (started : Bool) : Path → Text
  | [] => []
  | .index position :: rest => (Segment.index position).bracketed ++ spellingAfter true rest
  | .key name :: rest =>
    (if started then "." ++ name else name) ++ spellingAfter (started || name ≠ []) rest

/-- The segments of a path in one text: names are separated by dots, positions are in brackets. -/
def spelling (path : Path) : Text :=
  spellingAfter false path

@[simp] theorem spelling_nil : spelling [] = [] := rfl

@[simp] theorem isWritable_singleton (seg : Segment) : isWritable [seg] = seg.isWritable :=
  Bool.and_true _

theorem isWritable_cons (seg : Segment) (path : Path) :
    isWritable (seg :: path) = (seg.isWritable && path.isWritable) :=
  rfl

theorem isWritable_eq_false_of_mem {path : Path} {seg : Segment} (hmem : seg ∈ path)
    (h : seg.isWritable = false) : path.isWritable = false :=
  List.all_eq_false.2 ⟨seg, hmem, by simp [h]⟩

end Path

end PathStore
