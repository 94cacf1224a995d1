import PathStore.Proofs.Canonical
import PathStore.Proofs.Objects
import PathStore.View

/-!
# Views and the storages that they look into

A view keeps the path that its keys add up to, while a storage reads one written key at each access.
Both come to the same place: the segments of keys that are joined by dots are the segments of the keys
one after the other (`View.foldlM_below`), and no write gives a storage another root, so a view that
was made long ago still looks at the right one (`Store.WrittenTo.storage`).  Getting, setting and
deleting through a view is then the same as through the storage (`Storage.view_agrees`).
-/

namespace PathStore

/-! ## Effects with the same end -/

namespace Effect

variable {α : Type}

/-- What an outcome leaves of a store, and its answer; a fault leaves the store as it is. -/
def ofOutcome (s : Store) (outcome : Except Fault (Store × α)) : Effect α :=
  match outcome with
  | .error fault => .fail s fault
  | .ok (s', a) => .done s' a

/-- Two effects leave the same store and have the same answer or fault, whatever they logged. -/
structure SameEnd (e e' : Effect α) : Prop where
  store : e'.store = e.store
  result : e'.result = e.result

end Effect

/-! ## Keys of a storage -/

namespace Storage

variable {s : Store} {key : Value} {text : Text} {path : Path} {copy : Nat}

/-- A text without blank ends is a key for the segments that it has. -/
theorem keyPath_of_parse (hp : Path.parse text = .ok path) (hne : path ≠ [])
    (ht : Text.trim text = text) :
    usableKey? (.atom (.text text) copy) = some text ∧ Path.read text = .ok path ∧
      keyPath s (.atom (.text text) copy) = .ok path := by
  have hread : Path.read text = .ok path := by
    rw [Path.read, hp]
    rfl
  have hfull : text ≠ [] := by
    rintro rfl
    rw [Path.parse_eq_mapM_runs] at hp
    cases hp
    exact hne rfl
  refine ⟨?_, hread, ?_⟩
  · rw [usableKey?, ht, if_neg hfull]
  · simp only [keyPath, ht, hread, if_neg hfull, if_neg hne]

/-- Putting a value under a key ends as writing along its path. -/
theorem set_sameEnd (st : Storage) (hk : keyPath s key = .ok path) (new : Value) :
    (s.write st.root path new).SameEnd (st.set s key new) := by
  obtain ⟨hstore, hresult⟩ := st.set_of_keyPath hk new
  exact ⟨hstore, hresult⟩

/-- Taking out the value under a key ends as removing along its path. -/
theorem delete_sameEnd (st : Storage) (hu : usableKey? key = some text)
    (hp : Path.read text = .ok path) (keep : Choice) :
    (Effect.ofOutcome s (s.remove st.root path keep.yes)).SameEnd (st.delete s key keep) := by
  unfold delete
  rw [hu]
  simp only [hp]
  cases hr : s.remove st.root path keep.yes with
  | error fault => exact ⟨rfl, rfl⟩
  | ok p => exact ⟨rfl, rfl⟩

end Storage

/-! ## Storages under writes -/

namespace Store

/-- The storage of a number. -/
def storage (s : Store) (n : Nat) : Storage :=
  ⟨s.root n, n⟩

/-- What becomes of a store when values are made and written and taken out, through storages or
views, as often as wanted and whatever the outcomes. -/
inductive WrittenTo (s : Store) : Store → Prop
  | refl : WrittenTo s s
  | load {s' : Store} (d : Data) : WrittenTo s s' → WrittenTo s (s'.load d).1
  | set {s' : Store} (st : Storage) (key new : Value) :
      WrittenTo s s' → WrittenTo s (st.set s' key new).store
  | delete {s' : Store} (st : Storage) (key : Value) (keep : Choice) :
      WrittenTo s s' → WrittenTo s (st.delete s' key keep).store
  | setView {s' : Store} (v : View) (new : Value) :
      WrittenTo s s' → WrittenTo s (v.set s' new).store
  | deleteView {s' s'' : Store} {old : Value} (v : View) (keep : Bool)
      (outcome : v.delete s' keep = .ok (s'', old)) : WrittenTo s s' → WrittenTo s s''

variable {s s' : Store}

theorem WrittenTo.sameObjects (h : s.WrittenTo s') : s.SameObjects s' := by
  induction h with
  | refl => exact .refl s
  | load d _ ih => exact ih.trans (load_sameObjects _ d)
  | set st key new _ ih => exact ih.trans (st.set_sameObjects _ key new)
  | delete st key keep _ ih => exact ih.trans (st.delete_sameObjects _ key keep)
  | setView v new _ ih => exact ih.trans (write_sameObjects _ v.root v.path new)
  | deleteView v keep outcome _ ih => exact ih.trans (remove_sameObjects outcome)

/-- Writes leave every storage with the root that it has. -/
theorem WrittenTo.storage (h : s.WrittenTo s') (n : Nat) : s'.storage n = s.storage n := by
  unfold Store.storage root
  rw [h.sameObjects.storages]

end Store

/-! ## Keys of a view -/

/-- A key of a view is written as a text with segments: it is that text, or a position that is short
enough to be read again. -/
inductive ViewKey.Writes : ViewKey → Text → Prop
  | text {t : Text} {path : Path} (parse : Path.parse t = .ok path) (hne : path ≠ []) :
      Writes (.text t) t
  | position {i : Int} (nonneg : 0 ≤ i) (length : (Text.decimal i).length ≤ Text.maxDigits) :
      Writes (.position i) (Segment.index i).bracketed

/-- A position in brackets is read as that position. -/
theorem Path.parse_index {i : Int} (hi : 0 ≤ i)
    (hlen : (Text.decimal i).length ≤ Text.maxDigits) :
    parse (Segment.index i).bracketed = .ok [.index i] := by
  have hcanon : IsCanonical [.index i] := List.forall_mem_singleton.2 ⟨hi, hlen⟩
  have hform : spelling [.index i] = (Segment.index i).bracketed := List.append_nil _
  rw [← hform, parse_spelling hcanon]

/-- A key adds the segments that its text is read as. -/
theorem ViewKey.Writes.segments {key : ViewKey} {t : Text} {path : Path} (h : key.Writes t)
    (hp : Path.parse t = .ok path) : key.segments = .ok path := by
  cases h with
  | text parse hne =>
    rw [hp] at parse
    cases parse
    have hread : Path.read t = .ok path := by
      rw [Path.read, hp]
      rfl
    rw [ViewKey.segments, hread]
    cases path with
    | nil => exact absurd rfl hne
    | cons seg path => rfl
  | position nonneg length =>
    rw [Path.parse_index nonneg length] at hp
    cases hp
    rfl

namespace View

variable {start : Text} {keys front : List ViewKey} {last : ViewKey} {texts : List Text}
  {path : Path}

theorem join_cons_cons (t u : Text) (ts : List Text) :
    Text.join "." (t :: u :: ts) = Text.join "." ((t ++ .char '.' :: u) :: ts) := by
  cases ts <;> simp [Text.join, List.intercalate, List.intersperse] <;> rfl

/-- The segments of texts that are joined by dots are those that keys which write them add up to. -/
theorem foldlM_below (hk : List.Forall₂ ViewKey.Writes keys texts)
    (hp : Path.parse (Text.join "." (start :: texts)) = .ok path) (root : Value) :
    ∃ first, Path.parse start = .ok first ∧
      keys.foldlM View.below ⟨root, first⟩ = .ok ⟨root, path⟩ := by
  induction hk generalizing start with
  | nil =>
    rw [Text.join, List.intercalate_singleton] at hp
    exact ⟨path, hp, rfl⟩
  | @cons key t keys texts hkey _ ih =>
    rw [join_cons_cons] at hp
    obtain ⟨both, hboth, hfold⟩ := ih hp
    rw [Path.parse_append rfl] at hboth
    obtain ⟨first, hstart, hboth⟩ := bind_eq_ok.1 hboth
    obtain ⟨added, ht, hboth⟩ := bind_eq_ok.1 hboth
    cases hboth
    have hbelow : View.below ⟨root, first⟩ key = .ok ⟨root, first ++ added⟩ := by
      rw [View.below, hkey.segments ht]
      rfl
    refine ⟨first, hstart, ?_⟩
    rw [List.foldlM_cons, hbelow]
    exact hfold

/-- The last of the keys goes down from the view at the keys before it. -/
theorem foldlM_below_concat {v w : View}
    (h : (front ++ [last]).foldlM View.below v = .ok w) :
    ∃ v', front.foldlM View.below v = .ok v' ∧ v'.below last = .ok w := by
  rw [List.foldlM_append] at h
  obtain ⟨v', hfront, h⟩ := bind_eq_ok.1 h
  obtain ⟨w', hlast, hw⟩ := bind_eq_ok.1 h
  cases hw
  exact ⟨v', hfront, hlast⟩

end View

/-! ## Views against storages -/

namespace Storage

variable {s₀ s : Store} {n : Nat} {start : Text} {keys : List ViewKey} {texts : List Text}
  {path : Path}

/-- The view of a storage at a text and then at keys does, at any later time, what the storage does
under the texts joined by dots; and so do putting in and taking out by the last of the keys. -/
theorem view_agrees (hk : List.Forall₂ ViewKey.Writes keys texts) {key : Text}
    (hj : key = Text.join "." (start :: texts)) (hp : Path.parse key = .ok path) (hne : path ≠ [])
    (ht : Text.trim key = key) (hs : s₀.WrittenTo s) (copy : Nat) :
    (∃ v, ((s₀.storage n).view start).bind (keys.foldlM View.below) = .ok v ∧
      v.get s = (s.storage n).get s (.atom (.text key) copy) ∧
      (∀ new, (v.set s new).SameEnd ((s.storage n).set s (.atom (.text key) copy) new)) ∧
      ∀ keep, (Effect.ofOutcome s (v.delete s keep.yes)).SameEnd
        ((s.storage n).delete s (.atom (.text key) copy) keep)) ∧
    ∀ front last, keys = front ++ [last] →
      ∃ w, ((s₀.storage n).view start).bind (front.foldlM View.below) = .ok w ∧
        (∀ new, (w.setAt s last new).SameEnd
          ((s.storage n).set s (.atom (.text key) copy) new)) ∧
        w.deleteAt s last =
          ((s.storage n).delete s (.atom (.text key) copy) (.ofBool false)).result.map fun _ =>
            ((s.storage n).delete s (.atom (.text key) copy) (.ofBool false)).store := by
  subst hj
  obtain ⟨hu, hread, hkey⟩ := @keyPath_of_parse s _ path copy hp hne ht
  have hst : s.storage n = s₀.storage n := hs.storage n
  obtain ⟨first, hstart, hfold⟩ := View.foldlM_below hk hp (s₀.storage n).root
  have hview : (s₀.storage n).view start = .ok ⟨(s₀.storage n).root, first⟩ := by
    simp only [view, Path.read, hstart, Except.mapError, Except.map]
  have hset := set_sameEnd (s₀.storage n) hkey
  have hdelete := delete_sameEnd (s := s) (s₀.storage n) hu hread
  rw [hst, hview]
  refine ⟨⟨_, hfold, ?_, hset, hdelete⟩, fun front last hsplit => ?_⟩
  · rw [get, hkey]
    rfl
  · subst hsplit
    obtain ⟨w, hw, hlast⟩ := View.foldlM_below_concat hfold
    refine ⟨w, hw, fun new => ?_, ?_⟩
    · rw [View.setAt, hlast]
      exact hset new
    · rw [View.deleteAt, hlast]
      obtain ⟨hstore, hresult⟩ := hdelete (.ofBool false)
      rw [hstore, hresult]
      change (s.remove (s₀.storage n).root path false).map Prod.fst =
        (Effect.ofOutcome s (s.remove (s₀.storage n).root path false)).result.map fun _ =>
          (Effect.ofOutcome s (s.remove (s₀.storage n).root path false)).store
      cases s.remove (s₀.storage n).root path false with
      | error fault => rfl
      | ok p => rfl

/-- Dots and brackets at the seams are nobody's, and what was written in between is seen. -/
theorem view_agrees_across_write :
    ∃ (s₀ s : Store) (v w : View),
      s₀ = (ofRoot (Store.empty.load (.mapping .plain [])).1 (.ref ⟨0⟩)).1 ∧
      s = ((s₀.storage 0).set s₀ (.text "a[0].b[2]") (.ofAtom (.int 7))).store ∧
      ((s₀.storage 0).view "a[0").bind
        ([.text "].b", .position 2].foldlM View.below) = .ok v ∧
      ((s₀.storage 0).view "a[0").bind ([.text "].b"].foldlM View.below) = .ok w ∧
      v.get s = .ok (.ofAtom (.int 7)) ∧
      (s.storage 0).get s (.text "a[0.].b.[2]") = .ok (.ofAtom (.int 7)) ∧
      ((w.deleteAt s (.position 2)).map fun s' => s'.tree (s'.root 0)) =
        .ok (.mapping .plain [(.text "a", .list [.mapping .plain
          [(.text "b", .list [.leaf .none, .leaf .none])]])]) := by
  have hk : List.Forall₂ ViewKey.Writes [.text "].b", .position 2] ["].b", "[2]"] :=
    .cons (@ViewKey.Writes.text _ [.key "b"] (by cbv) (by decide))
      (.cons (.position (i := 2) (by decide) (by decide)) .nil)
  obtain ⟨⟨v, hv, hget, -⟩, hlast⟩ := @view_agrees _ _ 0 "a[0" _ _
    [.key "a", .index 0, .key "b", .index 2] hk "a[0.].b.[2]" (by cbv) (by cbv) (by decide)
    (by cbv) (.set ⟨.ref ⟨0⟩, 0⟩ (.text "a[0].b[2]") (.ofAtom (.int 7)) .refl) 0
  obtain ⟨w, hw, -, hdelete⟩ := hlast [.text "].b"] (.position 2) rfl
  exact ⟨_, _, v, w, rfl, rfl, hv, hw, hget.trans (by cbv), by cbv,
    (congrArg (Except.map _) hdelete).trans (by cbv)⟩

end Storage

end PathStore
