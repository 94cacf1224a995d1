import Mathlib.Data.List.Forall2
import PathStore.Proofs.Copies
import PathStore.Proofs.Slots

/-!
# Values made from JSON

The contents that JSON can carry (`Data.IsJson`) are plain, hold no object of the library, and name
every entry of a mapping once.  Making a value of them gives exactly these contents, in new cells
that occur in one place each (`Store.load_spec`).
-/

namespace PathStore

/-! ## Contents that JSON can carry -/

/-- Whether JSON has a notation for an atom. -/
def Atom.isJson : Atom → Bool
  | none => true
  | bool _ => true
  | int _ => true
  | float x => x.isFinite
  | text _ => true
  | _ => false

namespace Data

/-- Contents that JSON can carry: texts, finite numbers, truth values and nothing, in lists and in
plain mappings of names that are all different. -/
inductive IsJson : Data → Prop
  | leaf {a : Atom} (h : a.isJson = true) : IsJson (leaf a)
  | list {xs : List Data} (items : ∀ x ∈ xs, IsJson x) : IsJson (list xs)
  | mapping {es : Entries Data} (names : ∀ e ∈ es, ∃ t, e.1 = .text t)
      (distinct : (es.map Prod.fst).Nodup)
      (values : ∀ e ∈ es, IsJson e.2) : IsJson (mapping .plain es)

variable {t : Data}

theorem IsJson.plain (h : t.IsJson) : t.plain = t := by
  induction h with
  | leaf h => rfl
  | list items ih => rw [plain_list, List.map_congr_left ih, List.map_id']
  | mapping names distinct values ih =>
    rw [plain_mapping, Entries.mapValues]
    refine congrArg _ ((List.map_congr_left fun e he => ?_).trans (List.map_id _))
    rw [ih e he]
    rfl

/-- No object of the library stands in what JSON can carry. -/
theorem IsJson.allAtoms (h : t.IsJson) : t.allAtoms Store.isScalar = true := by
  induction h with
  | @leaf a h => cases a <;> first | rfl | cases h
  | list items ih => exact Store.allAtomsOf_iff.2 ih
  | mapping names distinct values ih =>
    refine Store.allAtomsOfEntries_iff.2 fun e he => ⟨?_, ih e he⟩
    obtain ⟨t, ht⟩ := names e he
    rw [ht]
    rfl

end Data

/-! ## Entries that are stored one after the other -/

namespace Entries

variable {α : Type} {es pairs : Entries α}

/-- Entries under names that are new come after those that are there. -/
theorem foldl_insert (names : ∀ e ∈ pairs, ∃ t, e.1 = .text t)
    (distinct : ((es ++ pairs).map Prod.fst).Nodup) :
    pairs.foldl (fun es p => insert p.1 p.2 es) es = es ++ pairs := by
  induction pairs generalizing es with
  | nil => simp
  | cons p pairs ih =>
    obtain ⟨⟨t, ht⟩, hnames⟩ := List.forall_mem_cons.1 names
    have hnew : es.find? p.1 = none := by
      cases hf : es.find? p.1 with
      | none => rfl
      | some v =>
        obtain ⟨es₁, k, es₂, rfl, hk, -⟩ := find?_eq_some hf
        rw [ht, MapKey.same_text_iff] at hk
        have hsep := (List.pairwise_append.1 (List.map_append ▸ distinct)).2.2
        exact absurd (hk.trans ht.symm) (hsep k (by simp) p.1 (by simp))
    rw [List.foldl_cons, insert_of_find?_eq_none hnew, ih hnames (by simpa using distinct)]
    simp

theorem ofList_eq_self (names : ∀ e ∈ es, ∃ t, e.1 = .text t)
    (distinct : (es.map Prod.fst).Nodup) : ofList es = es :=
  foldl_insert names distinct

end Entries

namespace Store

variable {s s' s'' : Store} {d : Data} {v : Value}

/-! ## Loading -/

/-- Between `s` and `s'` a value with the contents `d` was made, in cells of its own. -/
structure Loaded (s s' : Store) (d : Data) (v : Value) : Prop where
  isCopy : s'.IsCopy s.size d v
  separate : s'.Separate v

theorem Loaded.widen {s₀ : Store} (hg : Grows s₀ s) (hg' : Grows s' s'') (h : Loaded s s' d v) :
    Loaded s₀ s'' d v :=
  ⟨h.isCopy.grows hg' hg.size_le, (hg'.keeps h.isCopy.isFinite.closed).separate h.separate⟩

/-- Contents from which a value is made in every store. -/
def Loads (d : Data) : Prop :=
  ∀ s, Grows s (s.load d).1 ∧ Loaded s (s.load d).1 d (s.load d).2

theorem loadAll_spec {xs : List Data} (h : ∀ x ∈ xs, Loads x) (s : Store) :
    Grows s (s.loadAll xs).1 ∧ List.Forall₂ (Loaded s (s.loadAll xs).1) xs (s.loadAll xs).2 ∧
      (s.loadAll xs).2.Pairwise ((s.loadAll xs).1.Apart Cell.isContainer) := by
  induction xs generalizing s with
  | nil => exact ⟨Grows.refl s, .nil, .nil⟩
  | cons x xs ih =>
    obtain ⟨hx, hxs⟩ := List.forall_mem_cons.1 h
    obtain ⟨hg, hload⟩ := hx s
    obtain ⟨hg', hall, hpair⟩ := ih hxs (s.load x).1
    rw [loadAll]
    refine ⟨hg.trans hg', .cons (hload.widen (Grows.refl s) hg') ?_, .cons (fun v hv => ?_) hpair⟩
    · exact hall.imp fun _ _ h => h.widen hg (Grows.refl _)
    · obtain ⟨y, -, hy⟩ := exists_of_mem_right hall hv
      exact apart_of_fresh hg' hload.isCopy.isFinite hy.isCopy.fresh

/-- The entries of a mapping are made as its values are. -/
theorem loadEntries_eq (s : Store) (es : List (MapKey × Data)) :
    s.loadEntries es = ((s.loadAll (es.map Prod.snd)).1,
      (es.map Prod.fst).zip (s.loadAll (es.map Prod.snd)).2) := by
  induction es generalizing s with
  | nil => rfl
  | cons e es ih =>
    rw [loadEntries, List.map_cons, List.map_cons, loadAll]
    simp only [ih, List.zip_cons_cons]

/-- A further container of values that were made one after the other. -/
theorem alloc_loaded {cell : Cell} {xs : List Data} (hk : cell.isContainer = true)
    (hg : Grows s s') (hall : List.Forall₂ (Loaded s s') xs cell.values)
    (hp : cell.values.Pairwise (s'.Apart Cell.isContainer)) (ht : cell.contents s'.tree = d) :
    Grows s (s'.alloc cell).1 ∧ Loaded s (s'.alloc cell).1 d (s'.alloc cell).2 := by
  have hloaded : ∀ w ∈ cell.values, ∃ x, Loaded s s' x w := fun w hw => by
    obtain ⟨x, -, h⟩ := exists_of_mem_right hall hw
    exact ⟨x, h⟩
  refine ⟨hg.trans (grows_alloc s' cell), isCopy_alloc hg.size_le (fun w hw => ?_) ht,
    separate_alloc hk (fun w hw => ?_) (fun w hw => ?_) hp⟩
  · obtain ⟨x, h⟩ := hloaded w hw
    exact ⟨x, h.isCopy⟩
  · obtain ⟨x, h⟩ := hloaded w hw
    exact h.isCopy.isFinite
  · obtain ⟨x, h⟩ := hloaded w hw
    exact h.separate

/-- Making a value of what JSON can carry gives these contents, in new cells that occur once. -/
theorem load_spec (hj : d.IsJson) : Loads d := by
  induction hj with
  | @leaf a h => exact fun s => ⟨Grows.refl s, isCopy_atom s _ a 0, Separate.leaf rfl⟩
  | list items ih =>
    intro s
    obtain ⟨hg, hall, hp⟩ := loadAll_spec ih s
    refine alloc_loaded rfl hg hall hp (congrArg Data.list ?_)
    exact (map_eq_map_of_forall₂ (hall.imp fun _ _ h => h.isCopy.tree)).trans (List.map_id _)
  | @mapping es names distinct values ih =>
    intro s
    obtain ⟨hg, hall, hp⟩ := loadAll_spec (List.forall_mem_map.2 ih) s
    have hlen : (es.map Prod.fst).length = (s.loadAll (es.map Prod.snd)).2.length := by
      rw [List.length_map, ← hall.length_eq, List.length_map]
    have hvals : ((s.loadAll (es.map Prod.snd)).2).map (s.loadAll (es.map Prod.snd)).1.tree =
        es.map Prod.snd :=
      (map_eq_map_of_forall₂ (hall.imp fun _ _ h => h.isCopy.tree)).trans (List.map_id _)
    rw [load, loadEntries_eq]
    generalize s.loadAll (es.map Prod.snd) = made at *
    obtain ⟨s', vs⟩ := made
    have hfst : ((es.map Prod.fst).zip vs).map Prod.fst = es.map Prod.fst :=
      List.map_fst_zip (le_of_eq hlen)
    have hsnd : ((es.map Prod.fst).zip vs).map Prod.snd = vs := List.map_snd_zip (ge_of_eq hlen)
    have hself : Entries.ofList ((es.map Prod.fst).zip vs) = (es.map Prod.fst).zip vs := by
      refine Entries.ofList_eq_self (fun e he => ?_) (hfst.symm ▸ distinct)
      obtain ⟨e', he', heq⟩ := List.mem_map.1 (List.of_mem_zip he).1
      rw [← heq]
      exact names e' he'
    simp only [hself]
    have hcell : (Cell.mapping .plain ((es.map Prod.fst).zip vs)).values = vs := hsnd
    refine alloc_loaded rfl hg (hcell.symm ▸ hall) (hcell.symm ▸ hp) ?_
    have hzip : ((es.map Prod.fst).zip vs).map (Prod.map id s'.tree) = es := by
      rw [← List.zip_map_right, hvals]
      exact (List.zip_of_prod rfl rfl).symm
    exact congrArg (Data.mapping .plain) hzip

end Store

end PathStore
