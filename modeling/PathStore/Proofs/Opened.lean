import Mathlib
import PathStore.Proofs.Touched

/-!
# Trees in which ways have been opened

A tree is opened where an empty container takes the place of nothing, where a mapping of its items
takes the place of a list, and where a list or a mapping gets further slots that hold nothing; all
that it holds keeps its place (`Data.Opened`).  Putting something opened into a slot opens the whole
(`Data.Opened.assign`).  So when a new container is put into a slot of a store, every value that the
store holds is opened, for the container may be shared (`Store.Opens.of_assign`,
`Store.opens_of_replaced`).
-/

namespace PathStore

namespace Data

/-- The second tree comes from the first by opening slots: all that the first tree holds is in the
second in the same place, or under its position as a name, and the rest of the second are empty
containers and slots that hold nothing. -/
inductive Opened : Data → Data → Prop
  | refl (t : Data) : Opened t t
  | trans {t t' t'' : Data} (first : Opened t t') (second : Opened t' t'') : Opened t t''
  /-- An empty container takes the place of nothing. -/
  | made (next : Segment) : Opened nothing (fresh next)
  /-- A mapping of its items takes the place of a list. -/
  | converted (xs : List Data) : Opened (list xs) (mapping .plain (Entries.numbered 0 xs))
  /-- A list is filled up with nothing. -/
  | grown (xs : List Data) (n : Nat) : Opened (list xs) (list (xs ++ List.replicate n nothing))
  /-- A mapping gets a name that nothing stands under. -/
  | entered {kind : MappingKind} {es : Entries Data} {name : Text}
      (absent : ∀ e ∈ es, e.1 ≠ .text name) :
      Opened (mapping kind es) (mapping kind (es ++ [(.text name, nothing)]))
  | entry {kind : MappingKind} {k : MapKey} {t t' : Data} (before after : Entries Data)
      (below : Opened t t') :
      Opened (mapping kind (before ++ (k, t) :: after)) (mapping kind (before ++ (k, t') :: after))
  | item {t t' : Data} (before after : List Data) (below : Opened t t') :
      Opened (list (before ++ t :: after)) (list (before ++ t' :: after))
  | part {t t' : Data} (before after : List Data) (below : Opened t t') :
      Opened (tuple (before ++ t :: after)) (tuple (before ++ t' :: after))

namespace Opened

variable {t t' slot new : Data} {seg : Segment}

/-- What is opened in one place after the other is opened. -/
theorem of_forall₂ {α : Type} {R : α → α → Prop} (mk : List α → Data)
    (one : ∀ before x y after, R x y → Opened (mk (before ++ x :: after)) (mk (before ++ y :: after)))
    {xs ys : List α} (h : List.Forall₂ R xs ys) : Opened (mk xs) (mk ys) := by
  suffices hall : ∀ before, Opened (mk (before ++ xs)) (mk (before ++ ys)) from hall []
  induction h with
  | nil => exact fun before => .refl _
  | @cons x y xs ys hxy _ ih =>
    intro before
    have hrest := ih (before ++ [y])
    simp only [List.append_assoc, List.singleton_append] at hrest
    exact .trans (one before x y xs hxy) hrest

/-- Where the values of a cell are opened, its contents are. -/
theorem contents {f g : Value → Data} (c : Cell) (h : ∀ v ∈ c.values, Opened (f v) (g v)) :
    Opened (c.contents f) (c.contents g) := by
  cases c with
  | mapping kind es =>
    refine of_forall₂ (R := fun e e' => e.1 = e'.1 ∧ Opened e.2 e'.2) (mapping kind) ?_ ?_
    · rintro before ⟨k, t⟩ ⟨k', t'⟩ after ⟨rfl, hbelow⟩
      exact .entry before after hbelow
    · rw [List.forall₂_map_left_iff, List.forall₂_map_right_iff, List.forall₂_same]
      exact fun e he => ⟨rfl, h e.2 (List.mem_map_of_mem he)⟩
  | list xs =>
    refine of_forall₂ list (fun before t t' after => .item before after) ?_
    rw [List.forall₂_map_left_iff, List.forall₂_map_right_iff, List.forall₂_same]
    exact h
  | tuple xs =>
    refine of_forall₂ tuple (fun before t t' after => .part before after) ?_
    rw [List.forall₂_map_left_iff, List.forall₂_map_right_iff, List.forall₂_same]
    exact h
  | set ks => exact .refl _

/-- Putting into a slot what is opened from what stood there opens the whole. -/
theorem assign (hl : t.lookup seg = .ok slot) (hslot : Opened slot new)
    (ha : t.assign seg new = .ok t') : Opened t t' := by
  cases t with
  | mapping kind es =>
    obtain ⟨-, rfl⟩ := Segment.map_name_eq_ok ha
    obtain ⟨-, hl⟩ := Segment.map_name_eq_ok hl
    cases hf : Entries.find? (.text seg.spelling) es with
    | none =>
      obtain rfl : nothing = slot := by simpa [hf] using hl
      rw [Entries.insert_of_find?_eq_none hf]
      have habsent : ∀ e ∈ es, e.1 ≠ .text seg.spelling :=
        fun e he => MapKey.ne_of_same_eq_false (Entries.find?_eq_none hf e he)
      exact .trans (.entered habsent) (.entry es [] hslot)
    | some old =>
      obtain rfl : old = slot := by simpa [hf] using hl
      obtain ⟨before, k, after, rfl, hk, hne⟩ := Entries.find?_eq_some hf
      rw [Entries.insert_append_cons hne hk]
      exact .entry before after hslot
  | list xs =>
    cases seg with
    | key k => cases ha
    | index p =>
      simp only [Data.assign] at ha
      cases hx : assignAt nothing xs p new with
      | error fault => simp [hx, Except.map] at ha
      | ok ys =>
        obtain rfl : list ys = t' := by simpa [hx, Except.map] using ha
        obtain ⟨n, hlt, ho, rfl⟩ | ⟨hle, rfl⟩ := assignAt_eq_ok hx
        · obtain ⟨m, -, ho', hm⟩ | ⟨hge, -⟩ := itemAt_eq_ok hl
          · obtain rfl := Option.some.inj (ho.symm.trans ho')
            obtain ⟨hn, rfl⟩ := List.getElem?_eq_some_iff.1 hm
            have hxs : list xs = list (xs.take n ++ xs[n] :: xs.drop (n + 1)) := by
              rw [List.getElem_cons_drop, List.take_append_drop]
            rw [List.set_eq_take_append_cons_drop, if_pos hn, hxs]
            exact .item _ _ hslot
          · omega
        · obtain ⟨m, hlt, -⟩ | ⟨-, rfl⟩ := itemAt_eq_ok hl
          · omega
          · -- the list is filled up to the position first, and what is put there is opened then
            have hgrown := grown xs (p.toNat - xs.length + 1)
            rw [List.replicate_succ', ← List.append_assoc] at hgrown
            exact .trans hgrown (.item _ [] hslot)
  | leaf a => cases ha
  | tuple xs => cases ha
  | set ks => cases ha

end Opened

end Data

namespace Store

variable {s s' s'' : Store} {cur slot x : Value} {seg next : Segment} {c : Cell}

/-- Every value is finite in the second store, too, if it is in the first, and its contents are the
same or opened. -/
def Opens (s s' : Store) : Prop :=
  ∀ v, s.IsFinite v → s'.IsFinite v ∧ (s.tree v).Opened (s'.tree v)

theorem Opens.refl (s : Store) : Opens s s :=
  fun _ hf => ⟨hf, .refl _⟩

theorem Opens.trans (h : Opens s s') (h' : Opens s' s'') : Opens s s'' := by
  intro v hf
  obtain ⟨hf', ht⟩ := h v hf
  obtain ⟨hf'', ht'⟩ := h' v hf'
  exact ⟨hf'', .trans ht ht'⟩

theorem opens_of_grows (h : Grows s s') : Opens s s' := by
  intro _ hf
  have hk := h.keeps hf.closed
  rw [hk.tree hf]
  exact ⟨hk.isFinite hf, .refl _⟩

/-- Assigning to a slot what is opened from what stood there opens every value. -/
theorem Opens.of_assign (hf : s.IsFinite cur) (hl : s.lookup cur seg = .ok slot)
    (hx : s.IsFinite x) (hxc : ¬ s.Reaches x cur) (hslot : (s.tree slot).Opened (s.tree x))
    (ha : s.assign cur seg x = .ok s') : Opens s s' := by
  obtain ⟨r, c, c', rfl, hc, hca, rfl⟩ := assign_eq_ok ha
  have hc' : (s.put r c').get? r = some c' := get?_put_self hc c'
  have hkx : Keeps s (s.put r c') x := keeps_put hxc c'
  have hlc : c.lookup seg = .ok slot := by simpa [Store.lookup, cell?, hc] using hl
  have hkslot : Keeps s (s.put r c') slot := by
    rcases Cell.lookup_mem hlc with rfl | hm
    · exact keeps_put (fun h => by cases h.eq_of_atom) c'
    · exact keeps_put (hf.not_reaches hc hm) c'
  intro v hv
  induction hv with
  | atom a copy => exact ⟨.atom a copy, .refl _⟩
  | @ref r' c₀ get values ih =>
    by_cases heq : r' = r
    · subst heq
      obtain rfl := Option.some.inj (hc.symm.trans get)
      have hf' : (s.put r' c').IsFinite (.ref r') := by
        refine .ref hc' fun w hw => ?_
        rcases Cell.mem_assign_values hca hw with hw | rfl | rfl
        · exact (ih w hw).1
        · exact hkx.isFinite hx
        · exact .atom _ _
      refine ⟨hf', ?_⟩
      rw [tree_ref hf hc, tree_ref hf' hc']
      -- first what the cell held is opened, and then its slot
      refine .trans (Data.Opened.contents c fun w hw => (ih w hw).2) ?_
      have hslot' : ((s.put r' c').tree slot).Opened ((s.put r' c').tree x) := by
        rw [hkslot.tree (isFinite_of_lookup hf hl), hkx.tree hx]
        exact hslot
      have hlook : (c.contents (s.put r' c').tree).lookup seg = .ok ((s.put r' c').tree slot) := by
        rw [contents_lookup rfl, hlc]
        rfl
      have hassign : (c.contents (s.put r' c').tree).assign seg ((s.put r' c').tree x) =
          .ok (c'.contents (s.put r' c').tree) := by
        rw [contents_assign rfl, hca]
        rfl
      exact Data.Opened.assign hlook hslot' hassign
    · have get' : (s.put r c').get? r' = some c₀ := by
        rw [get?_put, if_neg (fun h => heq h.1.symm), get]
      have hf' : (s.put r c').IsFinite (.ref r') := .ref get' fun w hw => (ih w hw).1
      refine ⟨hf', ?_⟩
      rw [tree_ref (.ref get values) get, tree_ref hf' get']
      exact Data.Opened.contents c₀ fun w hw => (ih w hw).2

/-- Putting a new container into a slot on the way opens every value. -/
theorem opens_of_replaced (hf : s.IsFinite cur) (hl : s.lookup cur seg = .ok slot)
    (hp : s.passage slot next = .replace c)
    (ha : (s.alloc c).1.assign cur seg (s.alloc c).2 = .ok s') : Opens s s' := by
  have hgrows := grows_alloc s c
  have hcur : Keeps s (s.alloc c).1 cur := hgrows.keeps hf.closed
  have hfv := passage_isFinite hf hl hp
  have hfs := isFinite_of_lookup hf hl
  refine (opens_of_grows hgrows).trans (Opens.of_assign (hcur.isFinite hf)
    ((hcur.lookup seg).trans hl) (isFinite_alloc hfv) (replaced_not_reaches hf hl hp) ?_ ha)
  rw [(hgrows.keeps hfs.closed).tree hfs, tree_alloc hfv]
  obtain ⟨hn, rfl⟩ | ⟨r, xs, rfl, hc, -, rfl⟩ := passage_eq_replace hp
  · have hnothing : s.tree slot = Data.nothing := by
      cases slot with
      | atom a copy => cases a <;> first | rfl | cases hn
      | ref r => cases hn
    rw [hnothing]
    cases next with
    | key k => exact .made (.key k)
    | index p => exact .made (.index p)
  · have hconverted := Data.Opened.converted (xs.map s.tree)
    rw [Entries.numbered_map] at hconverted
    rw [tree_ref hfs hc]
    exact hconverted

end Store

end PathStore
