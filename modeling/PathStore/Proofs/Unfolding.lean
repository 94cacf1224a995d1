import PathStore.Proofs.Reach

/-!
# What a finite value holds

For a finite value the depth that `tree` goes down to is enough, so that its contents are those of
its cell and, below, those of the values in it (`tree_ref`); they depend on the cells that the value
reaches only (`Keeps.tree`).  A value that reaches no object of the library is data (`IsData`); a
finite one is data when no object occurs in its contents (`IsFinite.isData_iff`).
-/

namespace PathStore

/-- The contents of a cell whose values have the contents that `f` gives. -/
def Cell.contents (f : Value → Data) : Cell → Data
  | mapping kind es => .mapping kind (es.map fun e => (e.1, f e.2))
  | list xs => .list (xs.map f)
  | tuple xs => .tuple (xs.map f)
  | set ks => .set ks

theorem Cell.contents_congr {f g : Value → Data} {c : Cell} (h : ∀ v ∈ c.values, f v = g v) :
    c.contents f = c.contents g := by
  cases c with
  | mapping kind es =>
    simp only [contents, Data.mapping.injEq, List.map_inj_left, Prod.mk.injEq, true_and]
    exact fun e he => h e.2 (List.mem_map_of_mem he)
  | list xs =>
    simp only [contents, Data.list.injEq, List.map_inj_left]
    exact h
  | tuple xs =>
    simp only [contents, Data.tuple.injEq, List.map_inj_left]
    exact h
  | set ks => rfl

namespace Store

variable {s s' : Store} {v w : Value} {r : Ref} {c : Cell}

/-! ## Contents of finite values -/

theorem unfold_ref (h : s.get? r = some c) (depth : Nat) :
    s.unfold (depth + 1) (.ref r) = c.contents (s.unfold depth) := by
  rw [Store.unfold, h]
  cases c <;> rfl

theorem unfold_eq_of_endsWithin {d e : Nat} (h : s.endsWithin d v = true) (hde : d ≤ e) :
    s.unfold e v = s.unfold d v := by
  induction d generalizing v e with
  | zero =>
    cases v with
    | atom a copy => rw [Store.unfold, Store.unfold]
    | ref r => simp [Store.endsWithin] at h
  | succ d ih =>
    obtain ⟨e, rfl⟩ : ∃ e', e = e' + 1 := ⟨e - 1, by omega⟩
    cases v with
    | atom a copy => rfl
    | ref r =>
      cases hc : s.get? r with
      | none => simp [Store.endsWithin, hc] at h
      | some c =>
        simp only [Store.endsWithin, hc, List.all_eq_true] at h
        rw [unfold_ref hc, unfold_ref hc]
        exact Cell.contents_congr fun v hv => ih (h v hv) (by omega)

@[simp] theorem tree_atom (s : Store) (a : Atom) (copy : Nat) :
    s.tree (.atom a copy) = .leaf a := rfl

/-- A finite reference holds what its cell holds. -/
theorem tree_ref (hf : s.IsFinite (.ref r)) (h : s.get? r = some c) :
    s.tree (.ref r) = c.contents s.tree := by
  unfold tree
  rw [unfold_ref h]
  refine Cell.contents_congr fun v hv => ?_
  exact (unfold_eq_of_endsWithin (hf.of_mem h hv).endsWithin_size (by omega)).symm

theorem Keeps.tree (hk : Keeps s s' v) (hf : s.IsFinite v) : s'.tree v = s.tree v := by
  have hf' := hk.isFinite hf
  induction hf with
  | atom a copy => rfl
  | @ref r c get values ih =>
    have get' : s'.get? r = some c := by rw [hk r (Reaches.refl s _), get]
    rw [tree_ref (.ref get values) get, tree_ref hf' get']
    refine Cell.contents_congr fun v hv => ?_
    exact ih v hv (hk.of_reaches (Reaches.of_mem get hv)) (hf'.of_mem get' hv)

theorem tree_alloc (hf : ∀ v ∈ c.values, s.IsFinite v) :
    (s.alloc c).1.tree (s.alloc c).2 = c.contents s.tree := by
  refine (tree_ref (isFinite_alloc hf) (get?_alloc_self s c)).trans ?_
  exact Cell.contents_congr fun v hv => ((grows_alloc s c).keeps (hf v hv).closed).tree (hf v hv)

/-! ## Data -/

/-- Whether the atom is something else than an object of the library. -/
def isScalar (a : Atom) : Bool :=
  !a.isObject

/-- The cell that a value refers to is there, and no object of the library stands in the place of
the value or among the keys of the cell. -/
def ScalarAt (s : Store) : Value → Prop
  | .atom a _ => isScalar a = true
  | .ref r => ∃ c, s.get? r = some c ∧ ∀ k ∈ c.keys, k.allAtoms isScalar = true

/-- Nothing that the value reaches is missing or an object of the library. -/
def IsData (s : Store) (v : Value) : Prop :=
  ∀ w, s.Reaches v w → s.ScalarAt w

theorem allAtomsOf_iff {p : Atom → Bool} {xs : List Data} :
    Data.allAtomsOf p xs = true ↔ ∀ x ∈ xs, x.allAtoms p = true := by
  induction xs with
  | nil => simp [Data.allAtomsOf]
  | cons x xs ih => simp [Data.allAtomsOf, ih]

theorem allAtomsOfKeys_iff {p : Atom → Bool} {ks : List MapKey} :
    MapKey.allAtomsOf p ks = true ↔ ∀ k ∈ ks, k.allAtoms p = true := by
  induction ks with
  | nil => simp [MapKey.allAtomsOf]
  | cons k ks ih => simp [MapKey.allAtomsOf, ih]

theorem allAtomsOfEntries_iff {p : Atom → Bool} {es : List (MapKey × Data)} :
    Data.allAtomsOfEntries p es = true ↔
      ∀ e ∈ es, e.1.allAtoms p = true ∧ e.2.allAtoms p = true := by
  induction es with
  | nil => simp [Data.allAtomsOfEntries]
  | cons e es ih =>
    obtain ⟨k, x⟩ := e
    simp [Data.allAtomsOfEntries, ih]

theorem allAtoms_contents_iff {p : Atom → Bool} {f : Value → Data} {c : Cell} :
    (c.contents f).allAtoms p = true ↔
      (∀ k ∈ c.keys, k.allAtoms p = true) ∧ ∀ v ∈ c.values, (f v).allAtoms p = true := by
  cases c with
  | mapping kind es =>
    simp only [Cell.contents, Data.allAtoms, allAtomsOfEntries_iff, Cell.keys, Cell.values,
      List.forall_mem_map]
    exact forall₂_and
  | list xs => simp [Cell.contents, Data.allAtoms, allAtomsOf_iff, Cell.keys, Cell.values]
  | tuple xs => simp [Cell.contents, Data.allAtoms, allAtomsOf_iff, Cell.keys, Cell.values]
  | set ks => simp [Cell.contents, Data.allAtoms, allAtomsOfKeys_iff, Cell.keys, Cell.values]

theorem IsData.of_reaches (hd : s.IsData v) (h : s.Reaches v w) : s.IsData w :=
  fun x hx => hd x (h.trans hx)

theorem IsData.closed (hd : s.IsData v) : s.Closed v := by
  intro r hr
  obtain ⟨c, hc, -⟩ := hd _ hr
  exact get?_lt hc

theorem isData_atom {a : Atom} (h : isScalar a = true) (copy : Nat) : s.IsData (.atom a copy) := by
  intro w hw
  rw [hw.eq_of_atom]
  exact h

theorem isData_ref_iff (h : s.get? r = some c) :
    s.IsData (.ref r) ↔
      (∀ k ∈ c.keys, k.allAtoms isScalar = true) ∧ ∀ v ∈ c.values, s.IsData v := by
  constructor
  · intro hd
    refine ⟨?_, fun v hv => hd.of_reaches (Reaches.of_mem h hv)⟩
    obtain ⟨c', hc', hk⟩ := hd _ (Reaches.refl s _)
    rw [h] at hc'
    cases hc'
    exact hk
  · rintro ⟨hk, hv⟩ w hw
    rcases (reaches_ref_iff h).1 hw with rfl | ⟨v, hm, hvw⟩
    · exact ⟨c, h, hk⟩
    · exact hv v hm w hvw

/-- A finite value is data when no object of the library occurs in its contents. -/
theorem IsFinite.isData_iff (hf : s.IsFinite v) :
    s.IsData v ↔ (s.tree v).allAtoms isScalar = true := by
  induction hf with
  | atom a copy => exact ⟨fun hd => hd _ (Reaches.refl s _), fun h => isData_atom h copy⟩
  | ref get values ih =>
    rw [isData_ref_iff get, tree_ref (.ref get values) get, allAtoms_contents_iff]
    exact and_congr_right fun _ => forall₂_congr ih

theorem Keeps.isData (hk : Keeps s s' v) (hd : s.IsData v) : s'.IsData v := by
  intro w hw
  rw [hk.reaches_iff] at hw
  cases w with
  | atom a copy => exact hd _ hw
  | ref r =>
    obtain ⟨c, hc, h⟩ := hd _ hw
    exact ⟨c, by rw [hk r hw, hc], h⟩

end Store

end PathStore
