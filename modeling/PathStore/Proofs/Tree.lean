import PathStore.Proofs.Unfolding
import PathStore.Store.Read
import PathStore.Store.Remove
import PathStore.Store.Write

/-!
# Paths in trees

Reading, writing and removing along a path, for trees instead of values in a store.  `Data.read`
follows the path; `Data.write` is the update that goes down the path and comes back up, putting each
changed subtree into its slot; `Data.remove` takes the subtree at the end out of its slot.  What the
slots of a cell do is what the slots of its contents do (`contents_lookup`, `contents_assign`,
`contents_take`), so that reading a store is reading its tree (`read_tree`).
-/

namespace PathStore

/-! ## Definitions -/

namespace Data

/-- The absence of contents. -/
abbrev nothing : Data := leaf .none

/-- Whether contents are the absence of any. -/
def isNone : Data → Bool
  | leaf .none => true
  | _ => false

/-- Whether a path can lead through contents. -/
def isContainer : Data → Bool
  | mapping _ _ => true
  | list _ => true
  | _ => false

/-- The contents of the slot that a segment addresses. -/
def lookup : Data → Segment → Except Fault Data
  | mapping _ es, seg => seg.name.map fun name => (Entries.find? (.text name) es).getD nothing
  | list xs, .index p => itemAt nothing xs p
  | _, _ => .ok nothing

/-- The contents with `new` in the slot that a segment addresses. -/
def assign (t : Data) (seg : Segment) (new : Data) : Except Fault Data :=
  match t, seg with
  | mapping kind es, seg =>
    seg.name.map fun name => mapping kind (Entries.insert (.text name) new es)
  | list xs, .index p => (assignAt nothing xs p new).map list
  | t, seg => .error (.showing [seg] (.notAssignable seg t.kindName))

/-- Takes the contents of a slot out. -/
def take (keep : Bool) : Data → Segment → Except Fault (Data × Data)
  | mapping kind es, seg =>
    seg.name.map fun name =>
      let (es, old) := Entries.take nothing keep (.text name) es
      (mapping kind es, old)
  | list xs, .index p => (takeAt nothing keep xs p).map fun (xs, old) => (list xs, old)
  | t, _ => .ok (t, nothing)

/-- Follows `rest` from `t`, which was reached from the root of `path` by `before`. -/
def readFrom (path : Path) (before : Path) (t : Data) : Path → Except Fault Data
  | [] => .ok t
  | seg :: rest =>
    if t.isNone then .error (.showing path (.keyNotFound path before))
    else
      match t.lookup seg with
      | .error fault => .error fault
      | .ok next => readFrom path (before ++ [seg]) next rest

/-- The contents at a path. -/
def read (t : Data) (path : Path) : Except Fault Data :=
  readFrom path [] t path

/-- An empty container for the segment that comes next. -/
def fresh : Segment → Data
  | .index _ => list []
  | .key _ => mapping .plain []

/-- The container that a write goes on to `next` in, where `slot` is what was found at `here`. -/
def enter (path here : Path) (next : Segment) (slot : Data) : Except Fault Data :=
  if slot.isNone then .ok (fresh next)
  else
    match slot, next with
    | mapping kind es, _ => .ok (mapping kind es)
    | list xs, .index _ => .ok (list xs)
    | list xs, .key _ => .ok (mapping .plain (Entries.numbered 0 xs))
    | _, _ => .error (.showing path (.rawValue path here next))

/-- Puts an updated subtree back into its slot. -/
def update (t : Data) (seg : Segment) (below : Data × Except Fault Unit) :
    Data × Except Fault Unit :=
  match t.assign seg below.1 with
  | .ok t' => (t', below.2)
  | .error fault => (t, .error fault)

/-- Puts `new` at the end of `rest`, which goes on from `t`, reached by `before`; the tree that is
left is given also where a fault stops the write. -/
def writeFrom (path : Path) (before : Path) (t new : Data) : Path → Data × Except Fault Unit
  | [] => (t, .ok ())
  | [last] => t.update last (new, .ok ())
  | seg :: next :: rest =>
    match t.lookup seg with
    | .error fault => (t, .error fault)
    | .ok slot =>
      match enter path (before ++ [seg]) next slot with
      | .error fault => (t, .error fault)
      | .ok child => t.update seg (writeFrom path (before ++ [seg]) child new (next :: rest))

/-- Puts `new` at a path. -/
def write (t : Data) (path : Path) (new : Data) : Data × Except Fault Unit :=
  writeFrom path [] t new path

/-- Takes the contents at a path out; the tree that is left, and what was there. -/
def remove (keep : Bool) (t : Data) : Path → Except Fault (Data × Data)
  | [] => .ok (t, nothing)
  | [last] => t.take keep last
  | seg :: next :: rest =>
    match t.lookup seg with
    | .error fault => .error fault
    | .ok slot =>
      if slot.isContainer then
        match remove keep slot (next :: rest) with
        | .error fault => .error fault
        | .ok (below, old) => (t.assign seg below).map fun t' => (t', old)
      else .ok (t, nothing)

end Data

/-! ## Slots of contents -/

namespace Data

variable {seg : Segment} (h : seg.isWritable = true) (kind : MappingKind) (es : Entries Data)

include h

theorem lookup_mapping : (mapping kind es).lookup seg =
    .ok ((Entries.find? (.text seg.spelling) es).getD nothing) := by
  rw [lookup, Segment.name_of_isWritable h, Except.map]

theorem assign_mapping (new : Data) : (mapping kind es).assign seg new =
    .ok (mapping kind (Entries.insert (.text seg.spelling) new es)) := by
  rw [assign, Segment.name_of_isWritable h, Except.map]

theorem take_mapping (keep : Bool) : (mapping kind es).take keep seg =
    .ok (mapping kind (Entries.take nothing keep (.text seg.spelling) es).1,
      (Entries.take nothing keep (.text seg.spelling) es).2) := by
  rw [take, Segment.name_of_isWritable h, Except.map]

end Data

section
variable {α β : Type} (f : α → β)

theorem itemAt_map (fill : α) (xs : List α) (p : Int) :
    itemAt (f fill) (xs.map f) p = (itemAt fill xs p).map f := by
  unfold itemAt
  rw [List.length_map]
  split
  · cases offset? xs.length p with
    | none => rfl
    | some n =>
      simp only [List.getElem?_map, Except.map]
      cases xs[n]? <;> rfl
  · rfl

theorem assignAt_map (fill : α) (xs : List α) (p : Int) (new : α) :
    assignAt (f fill) (xs.map f) p (f new) = (assignAt fill xs p new).map (List.map f) := by
  unfold assignAt
  rw [List.length_map]
  split
  · cases offset? xs.length p with
    | none => rfl
    | some n => simp only [Except.map, List.map_set]
  · split
    · rfl
    · split
      · rfl
      · simp only [Except.map, List.map_append, List.map_replicate, List.map_cons, List.map_nil]

theorem takeAt_map (fill : α) (keep : Bool) (xs : List α) (p : Int) :
    takeAt (f fill) keep (xs.map f) p =
      (takeAt fill keep xs p).map fun r => (r.1.map f, f r.2) := by
  unfold takeAt
  rw [List.length_map]
  split
  · rfl
  · cases offset? xs.length p with
    | none =>
      simp only [Except.map]
      cases xs <;> rfl
    | some n =>
      simp only [Except.map, List.getElem?_map]
      cases xs[n]? <;> cases keep <;> simp [List.map_set, List.eraseIdx_map]

/-- The entries with `f` of each value. -/
abbrev Entries.mapValues (es : Entries α) : Entries β :=
  es.map fun e => (e.1, f e.2)

theorem Entries.find?_mapValues (k : MapKey) (es : Entries α) :
    (es.mapValues f).find? k = (es.find? k).map f := by
  induction es with
  | nil => rfl
  | cons e es ih =>
    simp only [mapValues, List.map_cons, find?] at ih ⊢
    split
    · rfl
    · exact ih

theorem Entries.insert_mapValues (k : MapKey) (v : α) (es : Entries α) :
    (es.mapValues f).insert k (f v) = (es.insert k v).mapValues f := by
  induction es with
  | nil => rfl
  | cons e es ih =>
    simp only [mapValues, List.map_cons, insert] at ih ⊢
    split
    · rfl
    · rw [ih]
      rfl

theorem Entries.erase_mapValues (k : MapKey) (es : Entries α) :
    (es.mapValues f).erase k = (es.erase k).mapValues f := by
  induction es with
  | nil => rfl
  | cons e es ih =>
    simp only [mapValues, List.map_cons, erase] at ih ⊢
    split
    · rfl
    · rw [ih]
      rfl

theorem Entries.numbered_map (start : Nat) (xs : List α) :
    numbered start (xs.map f) = (numbered start xs).mapValues f := by
  induction xs generalizing start with
  | nil => rfl
  | cons x xs ih => simp only [List.map_cons, numbered, ih, mapValues]

theorem Entries.take_mapValues (fill : α) (keep : Bool) (k : MapKey) (es : Entries α) :
    (es.mapValues f).take (f fill) keep k =
      (((es.take fill keep k).1.mapValues f), f (es.take fill keep k).2) := by
  unfold take
  rw [find?_mapValues]
  cases es.find? k with
  | none => rfl
  | some old =>
    simp only [Option.map_some]
    cases keep
    · simp only [Bool.false_eq_true, if_false, erase_mapValues]
    · simp only [if_true, insert_mapValues]

end

/-! ## Contents of cells -/

section
variable {f : Value → Data} (hf : f .none = Data.nothing) (c : Cell)

theorem contents_isContainer : (c.contents f).isContainer = c.isContainer := by
  cases c <;> rfl

theorem contents_isNone : (c.contents f).isNone = false := by
  cases c <;> rfl

include hf

theorem contents_lookup (seg : Segment) :
    (c.contents f).lookup seg = (c.lookup seg).map f := by
  cases c with
  | mapping kind es =>
    simp only [Cell.contents, Data.lookup, Cell.lookup, Entries.find?_mapValues]
    cases seg.name with
    | error fault => rfl
    | ok name =>
      simp only [Except.map]
      cases es.find? (.text name) with
      | none => simp only [Option.map_none, Option.getD_none, hf]
      | some v => rfl
  | list xs =>
    cases seg with
    | key k => simp only [Cell.contents, Data.lookup, Cell.lookup, Except.map, hf]
    | index p => simp only [Cell.contents, Data.lookup, Cell.lookup, ← hf, itemAt_map]
  | tuple xs => simp only [Cell.contents, Data.lookup, Cell.lookup, Except.map, hf]
  | set ks => simp only [Cell.contents, Data.lookup, Cell.lookup, Except.map, hf]

theorem contents_assign (seg : Segment) (new : Value) :
    (c.contents f).assign seg (f new) = (c.assign new seg).map (Cell.contents f) := by
  cases c with
  | mapping kind es =>
    simp only [Cell.contents, Data.assign, Cell.assign, Entries.insert_mapValues]
    cases seg.name <;> rfl
  | list xs =>
    cases seg with
    | key k => rfl
    | index p =>
      simp only [Cell.contents, Data.assign, Cell.assign, ← hf, assignAt_map]
      cases assignAt .none xs p new <;> rfl
  | tuple xs => rfl
  | set ks => rfl

theorem contents_take (keep : Bool) (seg : Segment) :
    (c.contents f).take keep seg =
      (c.take keep seg).map fun r => (r.1.contents f, f r.2) := by
  cases c with
  | mapping kind es =>
    simp only [Cell.contents, Data.take, Cell.take, ← hf, Entries.take_mapValues]
    cases seg.name <;> rfl
  | list xs =>
    cases seg with
    | key k => simp only [Cell.contents, Data.take, Cell.take, Except.map, hf]
    | index p =>
      simp only [Cell.contents, Data.take, Cell.take, ← hf, takeAt_map]
      cases takeAt .none keep xs p <;> rfl
  | tuple xs => simp only [Cell.contents, Data.take, Cell.take, Except.map, hf]
  | set ks => simp only [Cell.contents, Data.take, Cell.take, Except.map, hf]

end

/-! ## Reading -/

theorem Entries.mem_of_find? {α : Type} {k : MapKey} {v : α} {es : Entries α}
    (h : es.find? k = some v) : v ∈ es.map Prod.snd := by
  induction es with
  | nil => simp [find?] at h
  | cons e es ih =>
    rw [find?] at h
    split at h
    · cases h
      exact List.mem_cons_self
    · exact List.mem_cons_of_mem _ (ih h)

theorem itemAt_mem {α : Type} {fill x : α} {xs : List α} {p : Int}
    (h : itemAt fill xs p = .ok x) : x = fill ∨ x ∈ xs := by
  unfold itemAt at h
  split at h
  · cases ho : offset? xs.length p with
    | none => simp [ho] at h
    | some n =>
      simp only [ho, Except.ok.injEq] at h
      rw [List.getElem?_eq_getElem (offset?_lt ho)] at h
      subst h
      exact Or.inr (List.getElem_mem _)
  · cases h
    exact Or.inl rfl

/-- What is found in a slot of a cell is nothing or one of its values. -/
theorem Cell.lookup_mem {c : Cell} {seg : Segment} {w : Value} (h : c.lookup seg = .ok w) :
    w = .none ∨ w ∈ c.values := by
  cases c with
  | mapping kind es =>
    obtain ⟨-, h⟩ := Segment.map_name_eq_ok h
    cases hf : es.find? (.text seg.spelling) with
    | none =>
      rw [hf] at h
      exact Or.inl h.symm
    | some v =>
      rw [hf] at h
      subst h
      exact Or.inr (Entries.mem_of_find? hf)
  | list xs =>
    cases seg with
    | key k =>
      cases h
      exact Or.inl rfl
    | index p => exact itemAt_mem h
  | tuple xs =>
    cases h
    exact Or.inl rfl
  | set ks =>
    cases h
    exact Or.inl rfl

namespace Store

/-- What is found in a slot is nothing or held by the value. -/
theorem lookup_mem {s : Store} {v w : Value} {seg : Segment} (h : s.lookup v seg = .ok w) :
    w = .none ∨ s.Holds v w := by
  unfold Store.lookup at h
  cases hc : s.cell? v with
  | none =>
    simp only [hc, Except.ok.injEq] at h
    exact Or.inl h.symm
  | some c =>
    simp only [hc] at h
    exact (Cell.lookup_mem h).imp_right fun hw => ⟨c, hc, hw⟩

theorem isFinite_of_lookup {s : Store} {v w : Value} {seg : Segment} (hf : s.IsFinite v)
    (h : s.lookup v seg = .ok w) : s.IsFinite w := by
  rcases lookup_mem h with rfl | hw
  · exact .atom _ _
  · exact hf.of_reaches (Relation.ReflTransGen.single hw)

theorem Keeps.lookup {s s' : Store} {v : Value} (hk : Keeps s s' v) (seg : Segment) :
    s'.lookup v seg = s.lookup v seg := by
  cases v with
  | atom a copy => rfl
  | ref r => simp only [Store.lookup, cell?, hk r (Reaches.refl s _)]

variable {s : Store} {v : Value} (hf : s.IsFinite v)

include hf

theorem tree_isNone : (s.tree v).isNone = v.isNone := by
  cases hf with
  | atom a copy => cases a <;> rfl
  | ref get values =>
    rw [tree_ref (.ref get values) get, contents_isNone]
    rfl

theorem tree_isContainer : (s.tree v).isContainer = s.isContainer v := by
  cases hf with
  | atom a copy => rfl
  | ref get values =>
    rw [tree_ref (.ref get values) get, contents_isContainer]
    simp [Store.isContainer, cell?, get]

theorem lookup_tree (seg : Segment) : (s.tree v).lookup seg = (s.lookup v seg).map s.tree := by
  cases hf with
  | atom a copy => rfl
  | ref get values =>
    rw [tree_ref (.ref get values) get, contents_lookup rfl]
    simp [Store.lookup, cell?, get]

/-- Reading a store from a finite value is reading its tree. -/
theorem readFrom_tree (path before rest : Path) :
    (s.tree v).readFrom path before rest = (s.readFrom path before v rest).map s.tree := by
  induction rest generalizing v before with
  | nil => rfl
  | cons seg rest ih =>
    rw [Data.readFrom, Store.readFrom, tree_isNone hf, lookup_tree hf]
    cases hn : v.isNone with
    | true => rfl
    | false =>
      simp only [Bool.false_eq_true, if_false]
      cases hl : s.lookup v seg with
      | error fault => rfl
      | ok next => exact ih (isFinite_of_lookup hf hl) (before ++ [seg])

theorem read_tree (path : Path) : (s.tree v).read path = (s.read v path).map s.tree :=
  readFrom_tree hf path [] path

end Store

end PathStore
