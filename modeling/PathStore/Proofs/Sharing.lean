import Mathlib.Data.List.Nodup
import PathStore.Proofs.Unfolding

/-!
# What values share

Two values are apart for a kind of cells when neither reaches such a cell of the other (`Apart`).
The places of a value are the containers met on all ways down from it, one that lies on two ways
being met twice (`containers`); a finite value that meets none twice is unshared (`Unshared`).  For
writes along a path less is enough: below every container that a path can lead to, what stands in
different slots is apart (`Separate`), whatever is shared inside tuples; unshared values are separate
(`Unshared.separate`).
-/

namespace PathStore.Store

variable {s s' : Store} {v w x : Value} {r : Ref} {c : Cell}

/-! ## Definitions -/

/-- No cell of a kind is reached from both values. -/
def Apart (s : Store) (kind : Cell → Bool) (v w : Value) : Prop :=
  ∀ r c, s.get? r = some c → kind c = true → s.Reaches v (.ref r) → ¬ s.Reaches w (.ref r)

/-- The containers met on the ways down from a value, down to a depth. -/
def containersTo (s : Store) : Nat → Value → List Ref
  | _, .atom _ _ => []
  | 0, .ref _ => []
  | depth + 1, .ref r =>
    match s.get? r with
    | some c => (if c.isContainer then [r] else []) ++ c.values.flatMap (containersTo s depth)
    | none => []

/-- The containers met on the ways down from a value. -/
def containers (s : Store) (v : Value) : List Ref :=
  s.containersTo (s.size + 1) v

/-- A finite value below which no container occurs twice. -/
structure Unshared (s : Store) (v : Value) : Prop where
  isFinite : s.IsFinite v
  nodup : (s.containers v).Nodup

instance (s : Store) (v : Value) : Decidable (s.Unshared v) :=
  decidable_of_iff (s.IsFinite v ∧ (s.containers v).Nodup)
    ⟨fun h => ⟨h.1, h.2⟩, fun h => ⟨h.1, h.2⟩⟩

/-- Below every container that a path leads to, different slots have no container in common. -/
inductive Separate (s : Store) : Value → Prop
  | leaf {v : Value} (h : s.isContainer v = false) : Separate s v
  | container {r : Ref} {c : Cell} (get : s.get? r = some c) (isContainer : c.isContainer = true)
      (values : ∀ v ∈ c.values, Separate s v)
      (apart : c.values.Pairwise (s.Apart Cell.isContainer)) : Separate s (.ref r)

/-! ## Values that are apart -/

section
variable {kind : Cell → Bool}

theorem Apart.symm (h : s.Apart kind v w) : s.Apart kind w v :=
  fun r c hc hk hw hv => h r c hc hk hv hw

theorem Apart.of_reaches (h : s.Apart kind v w) (hx : s.Reaches v x) : s.Apart kind x w :=
  fun r c hc hk hr => h r c hc hk (hx.trans hr)

theorem Apart.of_imp {kind' : Cell → Bool} (h : s.Apart kind v w)
    (himp : ∀ c, kind' c = true → kind c = true) : s.Apart kind' v w :=
  fun r c hc hk => h r c hc (himp c hk)

theorem apart_atom (s : Store) (kind : Cell → Bool) (a : Atom) (copy : Nat) (w : Value) :
    s.Apart kind (.atom a copy) w := by
  intro r c _ _ h
  cases h.eq_of_atom

theorem Apart.keeps (h : s.Apart kind v w) (hv : Keeps s s' v) (hw : Keeps s s' w) :
    s'.Apart kind v w := by
  intro r c hc hk hr hr'
  rw [hv.reaches_iff] at hr
  rw [hw.reaches_iff] at hr'
  rw [hv r hr] at hc
  exact h r c hc hk hr hr'

end

theorem isContainer_ref (h : s.get? r = some c) : s.isContainer (.ref r) = c.isContainer := by
  simp [Store.isContainer, cell?, h]

theorem Separate.inv (h : s.Separate (.ref r)) (hc : s.get? r = some c)
    (hk : c.isContainer = true) :
    (∀ v ∈ c.values, s.Separate v) ∧ c.values.Pairwise (s.Apart Cell.isContainer) := by
  cases h with
  | leaf h =>
    rw [isContainer_ref hc, hk] at h
    cases h
  | container get _ values apart =>
    rw [hc] at get
    cases get
    exact ⟨values, apart⟩

theorem Keeps.isContainer (hk : Keeps s s' v) : s'.isContainer v = s.isContainer v := by
  cases v with
  | atom a copy => rfl
  | ref r => simp only [Store.isContainer, cell?, hk r (Reaches.refl s _)]

theorem Keeps.separate (hk : Keeps s s' v) (h : s.Separate v) : s'.Separate v := by
  induction h with
  | leaf h => exact .leaf (by rw [hk.isContainer, h])
  | @container r c get isContainer values apart ih =>
    have hkv : ∀ v ∈ c.values, Keeps s s' v := fun v hv => hk.of_reaches (Reaches.of_mem get hv)
    refine .container (by rw [hk r (Reaches.refl s _), get]) isContainer
      (fun v hv => ih v hv (hkv v hv)) ?_
    exact apart.imp_of_mem fun hv hw h => h.keeps (hkv _ hv) (hkv _ hw)

theorem separate_alloc (hk : c.isContainer = true) (hf : ∀ v ∈ c.values, s.IsFinite v)
    (hs : ∀ v ∈ c.values, s.Separate v) (hp : c.values.Pairwise (s.Apart Cell.isContainer)) :
    (s.alloc c).1.Separate (s.alloc c).2 := by
  have hkeep : ∀ v ∈ c.values, Keeps s (s.alloc c).1 v := fun v hv =>
    (grows_alloc s c).keeps (hf v hv).closed
  refine .container (get?_alloc_self s c) hk (fun v hv => (hkeep v hv).separate (hs v hv)) ?_
  exact hp.imp_of_mem fun hv hw h => h.keeps (hkeep _ hv) (hkeep _ hw)

/-! ## Unshared values -/

theorem containersTo_eq_of_endsWithin {d e : Nat} (h : s.endsWithin d v = true) (hde : d ≤ e) :
    s.containersTo e v = s.containersTo d v := by
  induction d generalizing v e with
  | zero =>
    cases v with
    | atom a copy => rw [containersTo, containersTo]
    | ref r => simp [Store.endsWithin] at h
  | succ d ih =>
    obtain ⟨e, rfl⟩ : ∃ e', e = e' + 1 := ⟨e - 1, by omega⟩
    cases v with
    | atom a copy => rfl
    | ref r =>
      cases hc : s.get? r with
      | none => simp [Store.endsWithin, hc] at h
      | some c =>
        simp only [Store.endsWithin, hc, List.all_eq_true] at h
        simp only [containersTo, hc]
        congr 1
        exact List.flatMap_congr fun v hv => ih (h v hv) (by omega)

theorem containers_ref (hf : s.IsFinite (.ref r)) (h : s.get? r = some c) :
    s.containers (.ref r) =
      (if c.isContainer then [r] else []) ++ c.values.flatMap s.containers := by
  unfold containers
  rw [containersTo, h]
  simp only
  congr 1
  refine List.flatMap_congr fun v hv => ?_
  exact (containersTo_eq_of_endsWithin (hf.of_mem h hv).endsWithin_size (by omega)).symm

theorem mem_containers_iff (hf : s.IsFinite v) :
    r ∈ s.containers v ↔
      s.Reaches v (.ref r) ∧ ∃ c, s.get? r = some c ∧ c.isContainer = true := by
  induction hf with
  | atom a copy =>
    constructor
    · intro h
      simp [containers, containersTo] at h
    · rintro ⟨h, -⟩
      cases h.eq_of_atom
  | @ref r' c get values ih =>
    rw [containers_ref (.ref get values) get, List.mem_append, List.mem_flatMap,
      reaches_ref_iff get]
    constructor
    · rintro (h | ⟨v, hv, h⟩)
      · split at h
        · next hk =>
          obtain rfl := List.mem_singleton.1 h
          exact ⟨Or.inl rfl, c, get, hk⟩
        · cases h
      · obtain ⟨h1, h2⟩ := (ih v hv).1 h
        exact ⟨Or.inr ⟨v, hv, h1⟩, h2⟩
    · rintro ⟨heq | ⟨v, hv, h1⟩, h2⟩
      · cases heq
        obtain ⟨c', hc', hk⟩ := h2
        rw [get] at hc'
        cases hc'
        left
        rw [if_pos hk]
        exact List.mem_singleton_self _
      · exact Or.inr ⟨v, hv, (ih v hv).2 ⟨h1, h2⟩⟩

theorem apart_of_disjoint (hv : s.IsFinite v) (hw : s.IsFinite w)
    (h : (s.containers v).Disjoint (s.containers w)) : s.Apart Cell.isContainer v w := by
  intro r c hc hk hr hr'
  exact h ((mem_containers_iff hv).2 ⟨hr, c, hc, hk⟩) ((mem_containers_iff hw).2 ⟨hr', c, hc, hk⟩)

/-- Where no container occurs twice, different slots have no container in common. -/
theorem Unshared.separate (h : s.Unshared v) : s.Separate v := by
  obtain ⟨hf, hn⟩ := h
  induction hf with
  | atom a copy => exact .leaf rfl
  | @ref r c get values ih =>
    rw [containers_ref (.ref get values) get] at hn
    obtain ⟨-, hn, -⟩ := List.nodup_append.1 hn
    obtain ⟨hn, hdisj⟩ := List.nodup_flatMap.1 hn
    by_cases hk : c.isContainer = true
    · refine .container get hk (fun v hv => ih v hv (hn v hv)) ?_
      exact hdisj.imp_of_mem fun hv hw h => apart_of_disjoint (values _ hv) (values _ hw) h
    · exact .leaf (by rw [isContainer_ref get]; simpa using hk)

end PathStore.Store
