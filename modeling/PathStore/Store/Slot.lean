import PathStore.Effect

/-!
# Slots

A segment addresses a slot of a container: the entry of a mapping under its name, or an item of a
list.  `lookup` reads a slot and `assign` writes it; a mapping refuses both for a position that has
no name.  A list grows by items that hold nothing when a position at or past its end is written;
growing it past what can be counted or kept is a fault.
-/

namespace PathStore

/-! ## Positions -/

/-- The place of a position in a list of the given length, negative positions counted from the
end. -/
def offset? (length : Nat) (position : Int) : Option Nat :=
  if 0 ≤ position then
    if position < length then some position.toNat else none
  else if 0 ≤ position + length then some (position + length).toNat
  else none

/-- The lowest position that is counted from the end of a list. -/
def minPosition : Int := -0x8000000000000000

/-- The fault of a position that lies before the first item; one that is too low to be counted at
all has a fault of its own. -/
def beforeFirst (position : Int) (fault underflow : Fault) : Fault :=
  if position < minPosition then underflow else fault

/-- The largest number of items that a list can be asked to grow by. -/
def maxGrowth : Int := 0x7FFFFFFFFFFFFFFF

/-- The number of items that no longer fit in memory. -/
def memoryLimit : Int := 0x1000000000000000

variable {α : Type}

/-- The item at a position; past the end of the list that is `fill`. -/
def itemAt (fill : α) (xs : List α) (position : Int) : Except Fault α :=
  if position < xs.length then
    match offset? xs.length position with
    | some n => .ok (xs[n]?.getD fill)
    | none => .error (beforeFirst position .indexOutOfRange .indexUnderflow)
  else .ok fill

/-- The items with `new` at a position, filled up with `fill` as far as needed. -/
def assignAt (fill : α) (xs : List α) (position : Int) (new : α) : Except Fault (List α) :=
  if position < xs.length then
    match offset? xs.length position with
    | some n => .ok (xs.set n new)
    | none => .error (beforeFirst position .assignmentOutOfRange .indexUnderflow)
  else if maxGrowth < position + 1 - xs.length then .error .lengthOverflow
  else if memoryLimit ≤ position + 1 - xs.length then .error .outOfMemory
  else .ok (xs ++ List.replicate (position.toNat - xs.length) fill ++ [new])

/-! ## Slots of a cell -/

namespace Cell

/-- The value in the slot that a segment addresses; nothing where there is no such slot. -/
def lookup : Cell → Segment → Except Fault Value
  | mapping _ es, seg => seg.name.map fun name => (es.find? (.text name)).getD .none
  | list xs, .index p => itemAt .none xs p
  | _, _ => .ok .none

/-- The cell with `new` in the slot that a segment addresses. -/
def assign (new : Value) : Cell → Segment → Except Fault Cell
  | mapping kind es, seg => seg.name.map fun name => mapping kind (es.insert (.text name) new)
  | list xs, .index p => (assignAt .none xs p new).map list
  | c, seg => .error (.showing [seg] (.notAssignable seg c.kindName))

end Cell

/-! ## Reading and writing a slot -/

namespace Store

/-- The value in the slot that a segment addresses; nothing where there is no such slot. -/
def lookup (s : Store) (v : Value) (seg : Segment) : Except Fault Value :=
  match s.cell? v with
  | some c => c.lookup seg
  | none => .ok .none

/-- The store with `new` in the slot that a segment addresses. -/
def assign (s : Store) (v : Value) (seg : Segment) (new : Value) : Except Fault Store :=
  match v with
  | .ref r =>
    match s.get? r with
    | some c => (c.assign new seg).map (s.put r)
    | none => .error (.showing [seg] (.notAssignable seg (s.kindName v)))
  | .atom a _ => .error (.showing [seg] (.notAssignable seg a.kindName))

end Store

/-! ## Lemmas -/

section
variable {seg : Segment} (h : seg.isWritable = true) (kind : MappingKind) (es : Entries Value)

include h

theorem Cell.lookup_mapping : (mapping kind es).lookup seg =
    .ok ((es.find? (.text seg.spelling)).getD .none) := by
  rw [lookup, Segment.name_of_isWritable h, Except.map]

theorem Cell.assign_mapping (new : Value) : (mapping kind es).assign new seg =
    .ok (mapping kind (es.insert (.text seg.spelling) new)) := by
  rw [assign, Segment.name_of_isWritable h, Except.map]

end

theorem offset?_lt {length n : Nat} {position : Int} (h : offset? length position = some n) :
    n < length := by
  unfold offset? at h
  split at h
  · split at h
    · cases h; omega
    · simp at h
  · split at h
    · cases h; omega
    · simp at h

theorem offset?_of_nonneg {length : Nat} {position : Int} (h : 0 ≤ position)
    (h' : position < length) : offset? length position = some position.toNat := by
  simp [offset?, h, h']

end PathStore
