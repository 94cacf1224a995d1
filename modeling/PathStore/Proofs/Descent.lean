import PathStore.Proofs.Edit

/-!
# Going down one level

Assigning a value to a slot keeps a finite value finite and changes its contents by one slot
(`assign_finite`); it keeps a separate tree separate (`assign_separate`).  So a write that goes down
from `cur` to `child` leaves `child` in the slot that it goes through (`Leads`), whatever is shared
(`Descent.leads`).  Where the tree is separate (`Focus`, `descent_focus`), an edit below `child` that
leaves new contents there is an assignment of these contents in the tree of `cur` (`Focus.edit`).
-/

namespace PathStore.Store

variable {s s' s'' : Store} {v w x new cur child slot : Value} {r : Ref} {c c' : Cell}
  {seg next : Segment} {path here : Path}

/-! ## Assigning to a slot -/

theorem keeps_put (h : ¬ s.Reaches v (.ref r)) (c' : Cell) : Keeps s (s.put r c') v := by
  intro r' hr'
  rw [get?_put, if_neg]
  rintro ⟨rfl, -⟩
  exact h hr'

theorem separate_atom (s : Store) (a : Atom) (copy : Nat) : s.Separate (.atom a copy) :=
  .leaf rfl

variable {pre post : List Value}

/-- A container is separate when what stands beside one of its values is kept and has no container in
common with that value. -/
theorem separate_ref (hc : s'.get? r = some c) (hk : c.isContainer = true)
    (hval : c.values = pre ++ x :: post)
    (hside : ∀ w ∈ pre ++ post, s.Separate w ∧ Keeps s s' w)
    (hpair : (pre ++ post).Pairwise (s.Apart Cell.isContainer))
    (hxs : s'.Separate x) (hxa : ∀ w ∈ pre ++ post, s'.Apart Cell.isContainer w x) :
    s'.Separate (.ref r) := by
  have hpair' : (pre ++ post).Pairwise (s'.Apart Cell.isContainer) :=
    hpair.imp_of_mem fun hv hw h => h.keeps (hside _ hv).2 (hside _ hw).2
  refine .container hc hk (fun w hw => ?_) ?_
  · rw [hval] at hw
    rcases List.mem_cons.1 (List.perm_middle.mem_iff.1 hw) with rfl | hw
    · exact hxs
    · exact (hside w hw).2.separate (hside w hw).1
  · obtain ⟨hpre, hpost, hcross⟩ := List.pairwise_append.1 hpair'
    rw [hval, List.pairwise_append, List.pairwise_cons]
    refine ⟨hpre, ⟨fun w hw => (hxa w (List.mem_append_right _ hw)).symm, hpost⟩, ?_⟩
    intro v hv w hw
    rcases List.mem_cons.1 hw with rfl | hw
    · exact hxa v (List.mem_append_left _ hv)
    · exact hcross v hv w hw

/-- What stands beside a value of a separate container has no container in common with it. -/
theorem pairwise_beside (hsp : (pre ++ x :: post).Pairwise (s.Apart Cell.isContainer)) :
    (pre ++ post).Pairwise (s.Apart Cell.isContainer) ∧
      ∀ w ∈ pre ++ post, s.Apart Cell.isContainer w x := by
  obtain ⟨hpre, hcons, hcross⟩ := List.pairwise_append.1 hsp
  obtain ⟨hx, hpost⟩ := List.pairwise_cons.1 hcons
  refine ⟨List.pairwise_append.2 ⟨hpre, hpost, fun v hv w hw => ?_⟩, fun w hw => ?_⟩
  · exact hcross v hv w (List.mem_cons_of_mem _ hw)
  · rcases List.mem_append.1 hw with hw | hw
    · exact hcross w hw x List.mem_cons_self
    · exact (hx w hw).symm

/-- What stands beside a slot that is assigned to, in the slots there were and in those that were
filled up, is apart from each other and from what stood in the slot. -/
theorem beside_of_assign {values : List Value}
    (hval : values = pre ++ slot :: post ∨
      slot = .none ∧ post = [] ∧ ∃ n, pre = values ++ List.replicate n .none)
    (hsp : values.Pairwise (s.Apart Cell.isContainer)) :
    (pre ++ post).Pairwise (s.Apart Cell.isContainer) ∧
      ∀ w ∈ pre ++ post, (w ∈ values ∨ w = .none) ∧ s.Apart Cell.isContainer w slot := by
  rcases hval with rfl | ⟨rfl, rfl, n, rfl⟩
  · obtain ⟨hpair, hslot⟩ := pairwise_beside hsp
    refine ⟨hpair, fun w hw => ⟨Or.inl ?_, hslot w hw⟩⟩
    exact (List.mem_append.1 hw).elim (List.mem_append_left _)
      fun hw => List.mem_append_right _ (List.mem_cons_of_mem _ hw)
  · rw [List.append_nil]
    have hnone : ∀ w ∈ List.replicate n Value.none, w = .none := fun w hw =>
      List.eq_of_mem_replicate hw
    refine ⟨List.pairwise_append.2 ⟨hsp, ?_, fun v _ w hw => ?_⟩, fun w hw => ⟨?_, ?_⟩⟩
    · refine List.pairwise_of_forall_mem_list fun v hv w _ => ?_
      rw [hnone v hv]
      exact apart_atom _ _ _ _ _
    · rw [hnone w hw]
      exact (apart_atom _ _ _ _ _).symm
    · exact (List.mem_append.1 hw).imp_right (hnone w)
    · exact (apart_atom _ _ _ _ _).symm

/-- What is assigned to a slot is found there. -/
theorem lookup_assign (h : s.assign cur seg x = .ok s') : s'.lookup cur seg = .ok x := by
  obtain ⟨r, c, c', rfl, hc, hca, rfl⟩ := assign_eq_ok h
  have hc' : (s.put r c').get? r = some c' := get?_put_self hc c'
  simpa [Store.lookup, cell?, hc'] using Cell.lookup_assign_self hca

/-- Assigning a finite value that does not lead back leaves a finite value finite, whatever is shared:
what was assigned keeps everything and is found in the slot, and the contents change there. -/
theorem assign_finite (hf : s.IsFinite cur) (hx : s.IsFinite x) (hxc : ¬ s.Reaches x cur)
    (h : s.assign cur seg x = .ok s') :
    s'.IsFinite cur ∧ Keeps s s' x ∧ s'.lookup cur seg = .ok x ∧
      (s.tree cur).assign seg (s.tree x) = .ok (s'.tree cur) := by
  have hself : s'.lookup cur seg = .ok x := lookup_assign h
  obtain ⟨r, c, c', rfl, hc, hca, rfl⟩ := assign_eq_ok h
  have hc' : (s.put r c').get? r = some c' := get?_put_self hc c'
  have hkx : Keeps s (s.put r c') x := keeps_put hxc c'
  have hkeep : ∀ w ∈ c.values, Keeps s (s.put r c') w :=
    fun w hw => keeps_put (hf.not_reaches hc hw) c'
  have hf' : (s.put r c').IsFinite (.ref r) := by
    refine .ref hc' fun w hw => ?_
    rcases Cell.mem_assign_values hca hw with hw | rfl | rfl
    · exact (hkeep w hw).isFinite (hf.of_mem hc hw)
    · exact hkx.isFinite hx
    · exact .atom _ _
  refine ⟨hf', hkx, hself, ?_⟩
  have hcongr : c.contents s.tree = c.contents (s.put r c').tree :=
    Cell.contents_congr fun w hw => ((hkeep w hw).tree (hf.of_mem hc hw)).symm
  rw [tree_ref hf hc, tree_ref hf' hc', ← hkx.tree hx, hcongr, contents_assign rfl, hca]
  rfl

/-- A separate value that has no container in common with what is apart from the slot can be assigned
to it: the tree stays separate. -/
theorem assign_separate (hf : s.IsFinite cur) (hs : s.Separate cur) (hx : s.IsFinite x)
    (hxs : s.Separate x) (hxc : ¬ s.Reaches x cur) (hl : s.lookup cur seg = .ok slot)
    (ha : ∀ w, s.Reaches cur w → s.Apart Cell.isContainer w slot → s.Apart Cell.isContainer w x)
    (h : s.assign cur seg x = .ok s') : s'.Separate cur := by
  have hkx : Keeps s s' x := (assign_finite hf hx hxc h).2.1
  obtain ⟨r, c, c', rfl, hc, hca, rfl⟩ := assign_eq_ok h
  obtain ⟨hk, hk'⟩ := Cell.assign_isContainer hca
  obtain ⟨hsv, hsp⟩ := hs.inv hc hk
  have hc' : (s.put r c').get? r = some c' := get?_put_self hc c'
  have hlc : c.lookup seg = .ok slot := by simpa [Store.lookup, cell?, hc] using hl
  obtain ⟨pre, post, hval', hval⟩ := Cell.assign_values hca hlc
  obtain ⟨hpair, hbeside⟩ := beside_of_assign hval hsp
  have hside : ∀ w ∈ pre ++ post, s.Separate w ∧ Keeps s (s.put r c') w := fun w hw => by
    rcases (hbeside w hw).1 with hw | rfl
    · exact ⟨hsv w hw, keeps_put (hf.not_reaches hc hw) c'⟩
    · exact ⟨separate_atom s _ _, keeps_put (fun h => by cases h.eq_of_atom) c'⟩
  have hxa : ∀ w ∈ pre ++ post, s.Apart Cell.isContainer w x := fun w hw => by
    rcases (hbeside w hw).1 with hm | rfl
    · exact ha w (Reaches.of_mem hc hm) (hbeside w hw).2
    · exact apart_atom _ _ _ _ _
  exact separate_ref hc' hk' hval' hside hpair (hkx.separate hxs)
    fun w hw => (hxa w hw).keeps (hside w hw).2 hkx

/-! ## A container in a slot -/

/-- `child` is the container that a finite value has in the slot of `seg`. -/
structure Leads (s : Store) (cur : Value) (seg : Segment) (child : Value) : Prop where
  isFinite : s.IsFinite cur
  lookup : s.lookup cur seg = .ok child
  isContainer : s.isContainer child = true

/-- `child` is the container that a separate tree has in the slot of `seg`. -/
structure Focus (s : Store) (cur : Value) (seg : Segment) (child : Value) : Prop
    extends s.Leads cur seg child where
  separate : s.Separate cur

theorem isNone_of_isContainer (h : s.isContainer v = true) : v.isNone = false := by
  cases v with
  | atom a copy => cases h
  | ref r => rfl

/-- What is found in a slot of a value that is not a container is nothing. -/
theorem isContainer_of_lookup (hl : s.lookup cur seg = .ok slot) (hn : slot.isNone = false) :
    ∃ r c, cur = .ref r ∧ s.get? r = some c ∧ c.isContainer = true ∧ c.lookup seg = .ok slot := by
  unfold Store.lookup at hl
  cases hc : s.cell? cur with
  | none =>
    simp only [hc, Except.ok.injEq] at hl
    subst hl
    cases hn
  | some c =>
    simp only [hc] at hl
    cases cur with
    | atom a copy => cases hc
    | ref r =>
      refine ⟨r, c, rfl, hc, ?_, hl⟩
      cases c with
      | mapping kind es => rfl
      | list xs => rfl
      | tuple xs =>
        cases hl
        cases hn
      | set ks =>
        cases hl
        cases hn

theorem separate_of_lookup (hs : s.Separate cur) (hl : s.lookup cur seg = .ok slot) :
    s.Separate slot := by
  cases hn : slot.isNone with
  | true =>
    cases slot with
    | atom a copy => exact separate_atom s a copy
    | ref r => cases hn
  | false =>
    obtain ⟨r, c, rfl, hc, hk, hl⟩ := isContainer_of_lookup hl hn
    rcases Cell.lookup_mem hl with rfl | hm
    · exact separate_atom s _ _
    · exact (hs.inv hc hk).1 slot hm

theorem not_reaches_of_lookup (hf : s.IsFinite cur) (hl : s.lookup cur seg = .ok slot)
    (hn : slot.isNone = false) : ¬ s.Reaches slot cur := by
  obtain ⟨r, c, rfl, hc, -, hl⟩ := isContainer_of_lookup hl hn
  rcases Cell.lookup_mem hl with rfl | hm
  · cases hn
  · exact hf.not_reaches hc hm

namespace Leads

variable (h : s.Leads cur seg child)

include h

theorem reaches : s.Reaches cur child :=
  lookup_reaches h.lookup (isNone_of_isContainer h.isContainer)

theorem child_isFinite : s.IsFinite child :=
  h.isFinite.of_reaches h.reaches

theorem cur_isNone : cur.isNone = false := by
  obtain ⟨r, c, rfl, -⟩ := isContainer_of_lookup h.lookup (isNone_of_isContainer h.isContainer)
  rfl

/-- An edit below the container does not change the cell that it stands in. -/
theorem get?_edit (he : Edit s s' child new) (hcur : cur = .ref r) : s'.get? r = s.get? r := by
  subst hcur
  have hn := isNone_of_isContainer h.isContainer
  obtain ⟨c, hc⟩ := h.isFinite.get?
  rcases he.kept r (get?_lt hc) with heq | ⟨hr, -⟩
  · exact heq
  · exact absurd hr (not_reaches_of_lookup h.isFinite h.lookup hn)

theorem lookup_edit (he : Edit s s' child new) (seg' : Segment) :
    s'.lookup cur seg' = s.lookup cur seg' := by
  cases cur with
  | atom a copy => rfl
  | ref r => simp only [Store.lookup, cell?, h.get?_edit he rfl]

end Leads

namespace Focus

variable (h : s.Focus cur seg child)

include h

theorem child_separate : s.Separate child :=
  separate_of_lookup h.separate h.lookup

/-- The container stands in a cell, beside values that have no container in common with it, and new
contents of it are an assignment to the slot. -/
theorem beside :
    ∃ r c pre post, cur = .ref r ∧ s.get? r = some c ∧ c.isContainer = true ∧
      c.values = pre ++ child :: post ∧ (pre ++ post).Pairwise (s.Apart Cell.isContainer) ∧
      (∀ w ∈ pre ++ post, w ∈ c.values ∧ s.Separate w ∧ s.Apart Cell.isContainer w child) ∧
      ∀ f g : Value → Data, (∀ w ∈ pre ++ post, f w = g w) →
        (c.contents f).assign seg (g child) = .ok (c.contents g) := by
  have hn := isNone_of_isContainer h.isContainer
  obtain ⟨r, c, rfl, hc, hk, hl⟩ := isContainer_of_lookup h.lookup hn
  obtain ⟨hsv, hsp⟩ := h.separate.inv hc hk
  obtain ⟨pre, post, hval, hassign⟩ := Cell.contents_assign_slot hl hn
  rw [hval] at hsp
  obtain ⟨hpair, hslot⟩ := pairwise_beside hsp
  refine ⟨r, c, pre, post, rfl, hc, hk, hval, hpair, ?_, hassign⟩
  intro w hw
  have hmem : w ∈ c.values := by
    rw [hval]
    exact List.perm_middle.mem_iff.2 (List.mem_cons_of_mem _ hw)
  exact ⟨hmem, hsv w hmem, hslot w hw⟩

/-- An edit below the container is an assignment of its new contents. -/
theorem edit (he : Edit s s' child new) (hf : s'.IsFinite child) :
    s'.IsFinite cur ∧ s'.lookup cur seg = .ok child ∧
      (s.tree cur).assign seg (s'.tree child) = .ok (s'.tree cur) := by
  have hl' : s'.lookup cur seg = .ok child := (h.lookup_edit he seg).trans h.lookup
  obtain ⟨r, c, pre, post, rfl, hc, -, hval, -, hside, hassign⟩ := h.beside
  have hfin : ∀ w ∈ pre ++ post, s.IsFinite w :=
    fun w hw => h.isFinite.of_mem hc (hside w hw).1
  have hkeep : ∀ w ∈ pre ++ post, Keeps s s' w :=
    fun w hw => he.keeps (hfin w hw).closed (hside w hw).2.2
  have hc' : s'.get? r = some c := by rw [h.get?_edit he rfl, hc]
  have hf' : s'.IsFinite (.ref r) := by
    refine .ref hc' fun w hw => ?_
    rw [hval] at hw
    rcases List.mem_cons.1 (List.perm_middle.mem_iff.1 hw) with rfl | hw
    · exact hf
    · exact (hkeep w hw).isFinite (hfin w hw)
  refine ⟨hf', hl', ?_⟩
  rw [tree_ref h.isFinite hc, tree_ref hf' hc']
  exact hassign _ _ fun w hw => ((hkeep w hw).tree (hfin w hw)).symm

/-- An edit below the container that leaves it separate leaves the tree separate. -/
theorem edit_separate (he : Edit s s' child new) (hs : s'.Separate child)
    (ha : s.Apart Cell.isContainer new cur) : s'.Separate cur := by
  obtain ⟨r, c, pre, post, rfl, hc, hk, hval, hpair, hside, -⟩ := h.beside
  have hclosed : ∀ w ∈ pre ++ post, s.Closed w :=
    fun w hw => (h.isFinite.of_mem hc (hside w hw).1).closed
  have hc' : s'.get? r = some c := by rw [h.get?_edit he rfl, hc]
  refine separate_ref hc' hk hval (fun w hw => ?_) hpair hs fun w hw => ?_
  · exact ⟨(hside w hw).2.1, he.keeps (hclosed w hw) (hside w hw).2.2⟩
  · exact he.apart (hclosed w hw) (fun _ h => h) (hside w hw).2.2
      (ha.symm.of_reaches (Reaches.of_mem hc (hside w hw).1))

end Focus

/-! ## The container that a write goes on in -/

/-- How a write goes on from a slot is how it goes on from the contents of the slot. -/
theorem enter_tree (hf : s.IsFinite slot) (path here : Path) (next : Segment) :
    Data.enter path here next (s.tree slot) =
      match s.passage slot next with
      | .fits => .ok (s.tree slot)
      | .replace c => .ok (c.contents s.tree)
      | .blocked => .error (.showing path (.rawValue path here next)) := by
  unfold Data.enter passage
  rw [tree_isNone hf]
  cases hn : slot.isNone with
  | true =>
    simp only [if_true]
    cases next <;> rfl
  | false =>
    simp only [Bool.false_eq_true, if_false]
    cases hf with
    | atom a copy =>
      simp only [tree_atom, cell?]
    | @ref r c get values =>
      simp only [tree_ref (.ref get values) get, cell?, get]
      cases c <;> cases next <;> simp [Cell.contents, Entries.numbered_map, Entries.mapValues]

/-- What the new container that takes a slot holds is separate and apart from what is beside the
slot. -/
theorem passage_separate (hs : s.Separate slot) (hp : s.passage slot next = .replace c) :
    (∀ w ∈ c.values, s.Separate w) ∧ c.values.Pairwise (s.Apart Cell.isContainer) := by
  obtain ⟨-, rfl⟩ | ⟨r, xs, rfl, hc, -, rfl⟩ := passage_eq_replace hp
  · cases next <;> simp [fresh, Cell.values]
  · simpa only [Cell.values, Entries.numbered_values] using hs.inv hc rfl

theorem isNone_of_passage_replace (hp : s.passage slot next = .replace c) (hw : w ∈ c.values) :
    slot.isNone = false := by
  obtain ⟨-, rfl⟩ | ⟨r, xs, rfl, -, -, -⟩ := passage_eq_replace hp
  · cases next <;> cases hw
  · rfl

section Replaced

variable (hf : s.IsFinite cur) (hl : s.lookup cur seg = .ok slot)
  (hp : s.passage slot next = .replace c)

include hf hl hp

theorem passage_isFinite : ∀ w ∈ c.values, s.IsFinite w := fun w hw =>
  (isFinite_of_lookup hf hl).of_reaches ((passage_replace hp).2.1 w hw)

/-- What the new container that takes a slot reaches is itself or reached from the slot. -/
theorem replaced_reaches (h : (s.alloc c).1.Reaches (s.alloc c).2 x) :
    x = (s.alloc c).2 ∨ slot.isNone = false ∧ s.Reaches slot x := by
  have hslot : Keeps s (s.alloc c).1 slot :=
    (grows_alloc s c).keeps (isFinite_of_lookup hf hl).closed
  rcases (reaches_ref_iff (get?_alloc_self s c)).1 h with rfl | ⟨w, hw, hwx⟩
  · exact Or.inl rfl
  · have hreach := (passage_replace hp).2.1 w hw
    rw [(hslot.of_reaches hreach).reaches_iff] at hwx
    exact Or.inr ⟨isNone_of_passage_replace hp hw, hreach.trans hwx⟩

omit hl hp in
/-- What is reached from a finite value is there before the new container is. -/
theorem ne_alloc_of_reaches (c : Cell) (h : s.Reaches cur (.ref r)) :
    Value.ref r ≠ (s.alloc c).2 := by
  intro heq
  cases heq
  exact Nat.lt_irrefl _ (hf.closed _ h)

theorem replaced_not_reaches : ¬ (s.alloc c).1.Reaches (s.alloc c).2 cur := by
  intro h
  rcases replaced_reaches hf hl hp h with heq | ⟨hn, h⟩
  · subst heq
    exact ne_alloc_of_reaches hf c (Reaches.refl s _) rfl
  · exact not_reaches_of_lookup hf hl hn h

variable (ha : (s.alloc c).1.assign cur seg (s.alloc c).2 = .ok s')

include ha

/-- The new container that takes a slot stands in it, with the contents that it was made with. -/
theorem replaced_leads :
    s'.Leads cur seg (s.alloc c).2 ∧ s'.tree (s.alloc c).2 = c.contents s.tree ∧
      (s.tree cur).assign seg (c.contents s.tree) = .ok (s'.tree cur) := by
  have hfv := passage_isFinite hf hl hp
  have hcur : Keeps s (s.alloc c).1 cur := (grows_alloc s c).keeps hf.closed
  obtain ⟨hf', hkc, hlc, htree⟩ := assign_finite (hcur.isFinite hf) (isFinite_alloc hfv)
    (replaced_not_reaches hf hl hp) ha
  refine ⟨⟨hf', hlc, ?_⟩, ?_, ?_⟩
  · rw [hkc.isContainer]
    exact (isContainer_ref (get?_alloc_self s c)).trans (passage_replace hp).1
  · rw [hkc.tree (isFinite_alloc hfv), tree_alloc hfv]
  · rw [← tree_alloc hfv, ← htree, hcur.tree hf]

/-- The new container has nothing in common with what is beside the slot that it takes. -/
theorem replaced_separate (hs : s.Separate cur) : s'.Separate cur := by
  have hfv := passage_isFinite hf hl hp
  obtain ⟨hsv, hsp⟩ := passage_separate (separate_of_lookup hs hl) hp
  have hcur : Keeps s (s.alloc c).1 cur := (grows_alloc s c).keeps hf.closed
  have hslot : Keeps s (s.alloc c).1 slot :=
    (grows_alloc s c).keeps (isFinite_of_lookup hf hl).closed
  refine assign_separate (hcur.isFinite hf) (hcur.separate hs) (isFinite_alloc hfv)
    (separate_alloc (passage_replace hp).1 hfv hsv hsp) (replaced_not_reaches hf hl hp)
    ((hcur.lookup seg).trans hl) (fun w hw hap r c' hc' hk' hr hr' => ?_) ha
  rw [hcur.reaches_iff] at hw
  rcases replaced_reaches hf hl hp hr' with heq | ⟨-, h⟩
  · rw [(hcur.of_reaches hw).reaches_iff] at hr
    exact ne_alloc_of_reaches hf c (hw.trans hr) heq
  · exact hap r c' hc' hk' hr (hslot.reaches h)

end Replaced

/-- Going down one level leads to a container in the slot that is gone through, whatever is
shared. -/
theorem Descent.leads (hf : s.IsFinite cur) (h : Descent s path here cur seg next s' (.ok child)) :
    s'.Leads cur seg child := by
  cases h with
  | fits lookup passage => exact ⟨hf, lookup, (passage_fits passage).2⟩
  | replaced lookup passage assign => exact (replaced_leads hf lookup passage assign).1

/-- Going down one level leads to a container in the slot that is gone through, with the contents
that a write on trees goes on in. -/
theorem descent_focus (hf : s.IsFinite cur) (hs : s.Separate cur)
    (h : Descent s path here cur seg next s' (.ok child)) :
    s'.Focus cur seg child ∧ ∃ slot, (s.tree cur).lookup seg = .ok slot ∧
      Data.enter path here next slot = .ok (s'.tree child) ∧
      (s.tree cur).assign seg (s'.tree child) = .ok (s'.tree cur) := by
  cases h with
  | fits lookup passage =>
    have hfocus : s.Focus cur seg child := ⟨⟨hf, lookup, (passage_fits passage).2⟩, hs⟩
    have hassign := (hfocus.edit (Edit.refl s child .none) hfocus.child_isFinite).2.2
    refine ⟨hfocus, s.tree child, ?_, ?_, hassign⟩
    · rw [lookup_tree hf, lookup]
      rfl
    · rw [enter_tree hfocus.child_isFinite, passage]
  | @replaced slot c s' lookup passage assign =>
    obtain ⟨hleads, htree, hassign⟩ := replaced_leads hf lookup passage assign
    refine ⟨⟨hleads, replaced_separate hf lookup passage assign hs⟩, s.tree slot, ?_, ?_, ?_⟩
    · rw [lookup_tree hf, lookup]
      rfl
    · rw [enter_tree (isFinite_of_lookup hf lookup), passage, htree]
    · rw [htree, hassign]

end PathStore.Store
