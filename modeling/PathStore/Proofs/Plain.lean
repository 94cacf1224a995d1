import PathStore.Proofs.Tree

/-!
# Plain trees

Copying a tree for a snapshot makes all its mappings plain, outside of tuples (`plain`).  Nothing that
is done along a path depends on the kind of a mapping: reading, writing and removing in the plain tree
give the plain form of what they give in the tree (`read_plain`, `write_plain`, `remove_plain`), with
the same faults.
-/

namespace PathStore.Data

/-! ## Definition -/

mutual

/-- The contents with all mappings outside of tuples made plain. -/
def plain : Data → Data
  | mapping _ es => mapping .plain (plainEntries es)
  | list xs => list (plainAll xs)
  | t => t

def plainAll : List Data → List Data
  | [] => []
  | x :: xs => x.plain :: plainAll xs

def plainEntries : List (MapKey × Data) → List (MapKey × Data)
  | [] => []
  | (k, x) :: es => (k, x.plain) :: plainEntries es

end

/-! ## Contents -/

theorem plainAll_eq_map (xs : List Data) : plainAll xs = xs.map plain := by
  induction xs with
  | nil => rfl
  | cons x xs ih => rw [plainAll, ih, List.map_cons]

theorem plainEntries_eq_map (es : List (MapKey × Data)) :
    plainEntries es = es.map fun e => (e.1, e.2.plain) := by
  induction es with
  | nil => rfl
  | cons e es ih => rw [plainEntries, ih, List.map_cons]

theorem plain_mapping (kind : MappingKind) (es : Entries Data) :
    (mapping kind es).plain = mapping .plain (Entries.mapValues plain es) :=
  congrArg (mapping .plain) (plainEntries_eq_map es)

theorem plain_list (xs : List Data) : (list xs).plain = list (xs.map plain) :=
  congrArg list (plainAll_eq_map xs)

mutual

/-- A plain tree stays as it is. -/
theorem plain_plain (t : Data) : t.plain.plain = t.plain := by
  cases t with
  | mapping kind es => exact congrArg (mapping .plain) (plainEntries_plainEntries es)
  | list xs => exact congrArg list (plainAll_plainAll xs)
  | _ => rfl

theorem plainAll_plainAll (xs : List Data) : plainAll (plainAll xs) = plainAll xs := by
  cases xs with
  | nil => rfl
  | cons x xs => rw [plainAll, plainAll, plain_plain x, plainAll_plainAll xs]

theorem plainEntries_plainEntries (es : List (MapKey × Data)) :
    plainEntries (plainEntries es) = plainEntries es := by
  cases es with
  | nil => rfl
  | cons e es => rw [plainEntries, plainEntries, plain_plain e.2, plainEntries_plainEntries es]

end

mutual

theorem allAtoms_plain (p : Atom → Bool) (t : Data) : t.plain.allAtoms p = t.allAtoms p := by
  cases t with
  | mapping kind es => exact allAtoms_plainEntries p es
  | list xs => exact allAtoms_plainAll p xs
  | _ => rfl

theorem allAtoms_plainAll (p : Atom → Bool) (xs : List Data) :
    allAtomsOf p (plainAll xs) = allAtomsOf p xs := by
  cases xs with
  | nil => rfl
  | cons x xs => rw [plainAll, allAtomsOf, allAtomsOf, allAtoms_plain p x, allAtoms_plainAll p xs]

theorem allAtoms_plainEntries (p : Atom → Bool) (es : List (MapKey × Data)) :
    allAtomsOfEntries p (plainEntries es) = allAtomsOfEntries p es := by
  cases es with
  | nil => rfl
  | cons e es =>
    obtain ⟨k, x⟩ := e
    rw [plainEntries, allAtomsOfEntries, allAtomsOfEntries, allAtoms_plain p x,
      allAtoms_plainEntries p es]

end

theorem plain_of_not_isContainer {t : Data} (h : t.isContainer = false) : t.plain = t := by
  cases t <;> first | rfl | cases h

/-! ## Slots -/

theorem isNone_plain (t : Data) : t.plain.isNone = t.isNone := by
  cases t <;> rfl

theorem isContainer_plain (t : Data) : t.plain.isContainer = t.isContainer := by
  cases t <;> rfl

theorem lookup_plain (t : Data) (seg : Segment) :
    t.plain.lookup seg = (t.lookup seg).map plain := by
  cases t with
  | mapping kind es =>
    simp only [plain_mapping, lookup, Entries.find?_mapValues]
    cases seg.name with
    | error fault => rfl
    | ok name =>
      simp only [Except.map]
      cases Entries.find? (.text name) es <;> rfl
  | list xs =>
    cases seg with
    | key k => rfl
    | index p =>
      simp only [plain_list, lookup]
      exact itemAt_map plain nothing xs p
  | _ => rfl

theorem assign_plain (t : Data) (seg : Segment) (new : Data) :
    t.plain.assign seg new.plain = (t.assign seg new).map plain := by
  cases t with
  | mapping kind es =>
    simp only [plain_mapping, assign, Entries.insert_mapValues]
    cases seg.name <;> simp only [Except.map, plain_mapping]
  | list xs =>
    cases seg with
    | key k => rfl
    | index p =>
      have hmap := assignAt_map plain nothing xs p new
      simp only [plain_list, assign]
      rw [show assignAt nothing (xs.map plain) p new.plain = _ from hmap]
      cases assignAt nothing xs p new with
      | error fault => rfl
      | ok ys => simp only [Except.map, plain_list]
  | _ => rfl

theorem take_plain (t : Data) (keep : Bool) (seg : Segment) :
    t.plain.take keep seg = (t.take keep seg).map fun r => (r.1.plain, r.2.plain) := by
  cases t with
  | mapping kind es =>
    simp only [plain_mapping, take]
    cases seg.name with
    | error fault => rfl
    | ok name =>
      have htake := Entries.take_mapValues plain nothing keep (.text name) es
      simp only [Except.map, plain_mapping]
      rw [show Entries.take nothing keep (.text name) (Entries.mapValues plain es) = _ from htake]
  | list xs =>
    cases seg with
    | key k => rfl
    | index p =>
      have htake := takeAt_map plain nothing keep xs p
      simp only [plain_list, take]
      rw [show takeAt nothing keep (xs.map plain) p = _ from htake]
      cases takeAt nothing keep xs p with
      | error fault => rfl
      | ok r => simp only [Except.map, plain_list]
  | _ => rfl

theorem enter_plain (path here : Path) (next : Segment) (slot : Data) :
    enter path here next slot.plain = (enter path here next slot).map plain := by
  unfold enter
  rw [isNone_plain]
  cases slot.isNone with
  | true => cases next <;> rfl
  | false =>
    simp only [Bool.false_eq_true, if_false]
    cases slot with
    | mapping kind es => rfl
    | list xs =>
      cases next with
      | index p => rfl
      | key k => simp only [plain_list, Except.map, plain_mapping, Entries.numbered_map]
    | _ => rfl

/-! ## Paths -/

theorem readFrom_plain (path before rest : Path) (t : Data) :
    t.plain.readFrom path before rest = (t.readFrom path before rest).map plain := by
  induction rest generalizing t before with
  | nil => rfl
  | cons seg rest ih =>
    rw [readFrom, readFrom, isNone_plain, lookup_plain]
    cases t.isNone with
    | true => rfl
    | false =>
      simp only [Bool.false_eq_true, if_false]
      cases t.lookup seg with
      | error fault => rfl
      | ok next => exact ih _ next

theorem read_plain (t : Data) (path : Path) : t.plain.read path = (t.read path).map plain :=
  readFrom_plain path [] path t

theorem update_plain (t : Data) (seg : Segment) (below : Data × Except Fault Unit) :
    t.plain.update seg (below.1.plain, below.2) =
      ((t.update seg below).1.plain, (t.update seg below).2) := by
  unfold update
  rw [assign_plain]
  cases t.assign seg below.1 <;> rfl

theorem writeFrom_plain (path before rest : Path) (t new : Data) :
    t.plain.writeFrom path before new.plain rest =
      ((t.writeFrom path before new rest).1.plain, (t.writeFrom path before new rest).2) := by
  induction rest generalizing t before with
  | nil => rfl
  | cons seg rest ih =>
    cases rest with
    | nil => exact update_plain t seg (new, .ok ())
    | cons next rest =>
      rw [writeFrom, writeFrom, lookup_plain]
      cases t.lookup seg with
      | error fault => rfl
      | ok slot =>
        simp only [Except.map]
        rw [enter_plain]
        cases enter path (before ++ [seg]) next slot with
        | error fault => rfl
        | ok child =>
          simp only [Except.map]
          rw [ih]
          exact update_plain t seg _

theorem write_plain (t new : Data) (path : Path) :
    t.plain.write path new.plain = ((t.write path new).1.plain, (t.write path new).2) :=
  writeFrom_plain path [] path t new

theorem remove_plain (t : Data) (keep : Bool) (path : Path) :
    t.plain.remove keep path = (t.remove keep path).map fun r => (r.1.plain, r.2.plain) := by
  induction path generalizing t with
  | nil => rfl
  | cons seg rest ih =>
    cases rest with
    | nil => exact take_plain t keep seg
    | cons next rest =>
      rw [remove, remove, lookup_plain]
      cases t.lookup seg with
      | error fault => rfl
      | ok slot =>
        simp only [Except.map]
        rw [isContainer_plain, ih]
        cases slot.isContainer with
        | false => rfl
        | true =>
          simp only [if_true]
          cases slot.remove keep (next :: rest) with
          | error fault => rfl
          | ok r =>
            simp only [Except.map, assign_plain]
            cases t.assign seg r.1 <;> rfl

end PathStore.Data
