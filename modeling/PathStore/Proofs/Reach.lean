import Mathlib.Data.Finset.Card
import Mathlib.Logic.Relation
import PathStore.Store.Contents

/-!
# What a value reaches

A value reaches what the cell it refers to holds, what the cells of those values hold, and so on
(`Reaches`).  A value that comes to an end on every way down is finite (`IsFinite`); it does not
reach itself (`IsFinite.not_reaches`), and no way down from it is longer than the store has cells
(`IsFinite.endsWithin_size`).  Two stores that agree on the cells that a value reaches agree on
everything about it: on what it reaches and whether it is finite (`Keeps`); a store that has grown
keeps every value whose cells are all there (`Grows.keeps`).
-/

namespace PathStore

namespace Cell

/-- The values that a cell holds. -/
def values : Cell → List Value
  | mapping _ es => es.map Prod.snd
  | list xs => xs
  | tuple xs => xs
  | set _ => []

/-- The keys that a cell holds. -/
def keys : Cell → List MapKey
  | mapping _ es => es.map Prod.fst
  | set ks => ks
  | _ => []

/-- Whether what a cell holds can change. -/
def isMutable : Cell → Bool
  | tuple _ => false
  | _ => true

theorem isMutable_of_isContainer {c : Cell} (h : c.isContainer = true) : c.isMutable = true := by
  cases c <;> first | rfl | simp [isContainer] at h

end Cell

namespace Store

/-! ## Definitions -/

/-- `v` refers to a cell that holds `w`. -/
def Holds (s : Store) (v w : Value) : Prop :=
  ∃ c, s.cell? v = some c ∧ w ∈ c.values

/-- A chain of references leads from one value to another. -/
def Reaches (s : Store) : Value → Value → Prop :=
  Relation.ReflTransGen s.Holds

/-- Every chain of references from the value ends, and none ends in a cell that is not there. -/
inductive IsFinite (s : Store) : Value → Prop
  | atom (a : Atom) (copy : Nat) : IsFinite s (.atom a copy)
  | ref {r : Ref} {c : Cell} (get : s.get? r = some c) (values : ∀ v ∈ c.values, IsFinite s v) :
      IsFinite s (.ref r)

/-- Whether all chains of references from a value end within so many cells. -/
def endsWithin (s : Store) : Nat → Value → Bool
  | _, .atom _ _ => true
  | 0, .ref _ => false
  | depth + 1, .ref r =>
    match s.get? r with
    | some c => c.values.all (endsWithin s depth)
    | none => false

/-- The cells that a value reaches are all there. -/
def Closed (s : Store) (v : Value) : Prop :=
  ∀ r, s.Reaches v (.ref r) → r.index < s.size

/-- `s'` has the cells of `s`, and maybe more. -/
def Grows (s s' : Store) : Prop :=
  ∀ r c, s.get? r = some c → s'.get? r = some c

/-- `s'` has the cells that `v` reaches in `s`. -/
def Keeps (s s' : Store) (v : Value) : Prop :=
  ∀ r, s.Reaches v (.ref r) → s'.get? r = s.get? r

/-! ## Chains of references -/

variable {s s' s'' : Store} {v w x : Value} {r : Ref} {c : Cell}

theorem get?_lt (h : s.get? r = some c) : r.index < s.size := by
  unfold get? at h
  obtain ⟨hlt, -⟩ := Array.getElem?_eq_some_iff.1 h
  exact hlt

theorem get?_put_self (h : s.get? r = some c) (c' : Cell) : (s.put r c').get? r = some c' := by
  rw [get?_put, if_pos ⟨rfl, get?_lt h⟩]

theorem get?_isSome (h : r.index < s.size) : ∃ c, s.get? r = some c :=
  ⟨_, Array.getElem?_eq_getElem h⟩

theorem holds_ref_iff (h : s.get? r = some c) : s.Holds (.ref r) w ↔ w ∈ c.values := by
  unfold Holds
  simp [cell?, h]

theorem Holds.eq_ref (h : s.Holds v w) : ∃ r c, v = .ref r ∧ s.get? r = some c ∧ w ∈ c.values := by
  obtain ⟨c, hc, hw⟩ := h
  cases v with
  | atom a copy => simp [cell?] at hc
  | ref r => exact ⟨r, c, rfl, hc, hw⟩

@[refl] theorem Reaches.refl (s : Store) (v : Value) : s.Reaches v v := Relation.ReflTransGen.refl

theorem Reaches.trans (h : s.Reaches v w) (h' : s.Reaches w x) : s.Reaches v x :=
  Relation.ReflTransGen.trans h h'

theorem Reaches.of_mem (h : s.get? r = some c) (hv : v ∈ c.values) : s.Reaches (.ref r) v :=
  Relation.ReflTransGen.single ((holds_ref_iff h).2 hv)

/-- What a reference reaches is itself or reached by something in its cell. -/
theorem reaches_ref_iff (h : s.get? r = some c) :
    s.Reaches (.ref r) w ↔ w = .ref r ∨ ∃ v ∈ c.values, s.Reaches v w := by
  constructor
  · intro hr
    rcases Relation.ReflTransGen.cases_head hr with heq | ⟨v, hv, hvw⟩
    · exact Or.inl heq.symm
    · exact Or.inr ⟨v, (holds_ref_iff h).1 hv, hvw⟩
  · rintro (rfl | ⟨v, hv, hvw⟩)
    · exact Reaches.refl s _
    · exact (Reaches.of_mem h hv).trans hvw

theorem Reaches.eq_of_cell?_none (hv : s.cell? v = none) (h : s.Reaches v w) : w = v := by
  rcases Relation.ReflTransGen.cases_head h with heq | ⟨x, ⟨c, hc, -⟩, -⟩
  · exact heq.symm
  · rw [hv] at hc
    cases hc

theorem Reaches.eq_of_atom {a : Atom} {copy : Nat} (h : s.Reaches (.atom a copy) w) :
    w = .atom a copy :=
  h.eq_of_cell?_none rfl

/-! ## Finite values -/

theorem IsFinite.of_mem (hf : s.IsFinite (.ref r)) (h : s.get? r = some c) (hv : v ∈ c.values) :
    s.IsFinite v := by
  cases hf with
  | ref get values =>
    rw [h] at get
    cases get
    exact values v hv

theorem IsFinite.of_reaches (hf : s.IsFinite v) (h : s.Reaches v w) : s.IsFinite w := by
  induction h with
  | refl => exact hf
  | tail _ hbw ih =>
    obtain ⟨r, c, rfl, hc, hw⟩ := hbw.eq_ref
    exact ih.of_mem hc hw

theorem IsFinite.get? (hf : s.IsFinite (.ref r)) : ∃ c, s.get? r = some c := by
  cases hf with
  | ref get values => exact ⟨_, get⟩

theorem IsFinite.closed (hf : s.IsFinite v) : s.Closed v := by
  intro r hr
  obtain ⟨c, hc⟩ := (hf.of_reaches hr).get?
  exact get?_lt hc

/-- A finite value holds nothing that leads back to it. -/
theorem IsFinite.not_transGen (hf : s.IsFinite v) : ¬ Relation.TransGen s.Holds v v := by
  induction hf with
  | atom a copy =>
    intro h
    obtain ⟨w, hw, -⟩ := Relation.TransGen.head'_iff.1 h
    obtain ⟨r, c, hr, -⟩ := hw.eq_ref
    cases hr
  | ref get values ih =>
    intro h
    obtain ⟨w, hw, hwr⟩ := Relation.TransGen.head'_iff.1 h
    exact ih w ((holds_ref_iff get).1 hw) (Relation.TransGen.tail' hwr hw)

theorem IsFinite.not_reaches (hf : s.IsFinite (.ref r)) (h : s.get? r = some c)
    (hv : v ∈ c.values) : ¬ s.Reaches v (.ref r) := by
  intro hr
  exact hf.not_transGen (Relation.TransGen.head' ((holds_ref_iff h).2 hv) hr)

theorem isFinite_of_endsWithin {depth : Nat} (h : s.endsWithin depth v = true) : s.IsFinite v := by
  induction depth generalizing v with
  | zero =>
    cases v with
    | atom a copy => exact .atom a copy
    | ref r => simp [endsWithin] at h
  | succ depth ih =>
    cases v with
    | atom a copy => exact .atom a copy
    | ref r =>
      cases hc : s.get? r with
      | none => simp [endsWithin, hc] at h
      | some c =>
        simp only [endsWithin, hc, List.all_eq_true] at h
        exact .ref hc fun v hv => ih (h v hv)

/-- The cells on a way down are all different, so a way that avoids the cells of `seen` is no longer
than the store has others. -/
theorem IsFinite.endsWithin_sub_card (hf : s.IsFinite v) (seen : Finset Nat)
    (hlt : ∀ i ∈ seen, i < s.size) (havoid : ∀ i ∈ seen, ¬ s.Reaches v (.ref ⟨i⟩)) :
    s.endsWithin (s.size - seen.card) v = true := by
  induction hf generalizing seen with
  | atom a copy => unfold endsWithin; rfl
  | @ref r c get values ih =>
    have hr : r.index ∉ seen := fun hmem => havoid r.index hmem (Reaches.refl s _)
    have hf : s.IsFinite (.ref r) := .ref get values
    have hlt' : ∀ i ∈ insert r.index seen, i < s.size := by
      intro i hi
      rcases Finset.mem_insert.1 hi with rfl | hi
      · exact get?_lt get
      · exact hlt i hi
    have hcard : (insert r.index seen).card ≤ s.size := by
      have hsub : insert r.index seen ⊆ Finset.range s.size := fun i hi =>
        Finset.mem_range.2 (hlt' i hi)
      simpa using Finset.card_le_card hsub
    rw [Finset.card_insert_of_notMem hr] at hcard
    obtain ⟨d, hd⟩ : ∃ d, s.size - seen.card = d + 1 := ⟨s.size - seen.card - 1, by omega⟩
    rw [hd]
    simp only [endsWithin, get, List.all_eq_true]
    intro v hv
    have hd' : s.size - (insert r.index seen).card = d := by
      rw [Finset.card_insert_of_notMem hr]
      omega
    rw [← hd']
    refine ih v hv (insert r.index seen) hlt' fun i hi hvi => ?_
    rcases Finset.mem_insert.1 hi with rfl | hi
    · exact hf.not_reaches get hv hvi
    · exact havoid i hi ((Reaches.of_mem get hv).trans hvi)

/-- No way down from a finite value is longer than the store has cells. -/
theorem IsFinite.endsWithin_size (hf : s.IsFinite v) : s.endsWithin s.size v = true := by
  simpa using hf.endsWithin_sub_card ∅ (by simp) (by simp)

theorem isFinite_iff_endsWithin : s.IsFinite v ↔ s.endsWithin s.size v = true :=
  ⟨IsFinite.endsWithin_size, isFinite_of_endsWithin⟩

instance (s : Store) (v : Value) : Decidable (s.IsFinite v) :=
  decidable_of_iff _ isFinite_iff_endsWithin.symm

/-! ## Stores that agree on what a value reaches -/

theorem Keeps.reaches (hk : Keeps s s' v) (h : s.Reaches v w) : s'.Reaches v w := by
  induction h with
  | refl => exact Reaches.refl s' v
  | tail hvb hbw ih =>
    obtain ⟨r, c, rfl, hc, hw⟩ := hbw.eq_ref
    have hc' : s'.get? r = some c := by rw [hk r hvb, hc]
    exact ih.trans (Reaches.of_mem hc' hw)

theorem Keeps.of_reaches (hk : Keeps s s' v) (h : s.Reaches v w) : Keeps s s' w :=
  fun r hr => hk r (h.trans hr)

theorem Keeps.reaches_iff (hk : Keeps s s' v) : s'.Reaches v w ↔ s.Reaches v w := by
  constructor
  · intro h
    induction h with
    | refl => exact Reaches.refl s v
    | tail _ hbw ih =>
      obtain ⟨r, c, rfl, hc, hw⟩ := hbw.eq_ref
      rw [hk r ih] at hc
      exact ih.trans (Reaches.of_mem hc hw)
  · exact hk.reaches

theorem Keeps.symm (hk : Keeps s s' v) : Keeps s' s v :=
  fun r hr => (hk r (hk.reaches_iff.1 hr)).symm

theorem Keeps.trans (hk : Keeps s s' v) (hk' : Keeps s' s'' v) : Keeps s s'' v := by
  intro r hr
  rw [hk' r (hk.reaches hr), hk r hr]

theorem Keeps.closed (hk : Keeps s s' v) (hv : s.Closed v) : s'.Closed v := by
  intro r hr
  rw [hk.reaches_iff] at hr
  obtain ⟨c, hc⟩ := get?_isSome (hv r hr)
  rw [← hk r hr] at hc
  exact get?_lt hc

theorem Keeps.isFinite (hk : Keeps s s' v) (hf : s.IsFinite v) : s'.IsFinite v := by
  induction hf with
  | atom a copy => exact .atom a copy
  | ref get values ih =>
    refine .ref (by rw [hk _ (Reaches.refl s _), get]) fun v hv => ?_
    exact ih v hv (hk.of_reaches (Reaches.of_mem get hv))

theorem Grows.refl (s : Store) : Grows s s := fun _ _ h => h

theorem Grows.trans (h : Grows s s') (h' : Grows s' s'') : Grows s s'' :=
  fun r c hc => h' r c (h r c hc)

theorem Grows.size_le (h : Grows s s') : s.size ≤ s'.size := by
  rcases Nat.eq_zero_or_pos s.size with h0 | hpos
  · omega
  · obtain ⟨c, hc⟩ := get?_isSome (s := s) (r := ⟨s.size - 1⟩) (show s.size - 1 < s.size by omega)
    have hlt := get?_lt (h _ c hc)
    change s.size - 1 < s'.size at hlt
    omega

theorem Grows.endsWithin {d : Nat} (h : Grows s s') (hv : s.endsWithin d v = true) :
    s'.endsWithin d v = true := by
  induction d generalizing v with
  | zero =>
    cases v with
    | atom a copy => unfold Store.endsWithin; rfl
    | ref r => simp [Store.endsWithin] at hv
  | succ d ih =>
    cases v with
    | atom a copy => rfl
    | ref r =>
      cases hc : s.get? r with
      | none => simp [Store.endsWithin, hc] at hv
      | some c =>
        simp only [Store.endsWithin, hc, h r c hc, List.all_eq_true] at hv ⊢
        exact fun w hw => ih (hv w hw)

theorem get?_alloc_self (s : Store) (c : Cell) : (s.alloc c).1.get? ⟨s.size⟩ = some c := by
  rw [get?_alloc, if_pos rfl]

theorem grows_alloc (s : Store) (c : Cell) : Grows s (s.alloc c).1 := by
  intro r c' hc
  have hlt := get?_lt hc
  rw [get?_alloc, if_neg (by omega), hc]

theorem Grows.keeps (h : Grows s s') (hv : s.Closed v) : Keeps s s' v := by
  intro r hr
  obtain ⟨c, hc⟩ := get?_isSome (hv r hr)
  rw [hc, h r c hc]

theorem isFinite_alloc (hf : ∀ v ∈ c.values, s.IsFinite v) :
    (s.alloc c).1.IsFinite (s.alloc c).2 :=
  .ref (get?_alloc_self s c) fun v hv => ((grows_alloc s c).keeps (hf v hv).closed).isFinite (hf v hv)

end Store

end PathStore
