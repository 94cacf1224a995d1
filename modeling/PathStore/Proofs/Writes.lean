import PathStore.Proofs.Descent

/-!
# Writing and removing change the tree

Below a root that is finite and separate, writing a value that has no container in common with it is
writing its contents into the tree of the root (`write_spec`), and removing is removing from the tree
(`remove_spec`).  The root stays finite, and separate if a value that was written is, so this holds of
one change after the other.
-/

namespace PathStore.Store

variable {s s' : Store} {cur new child slot : Value} {seg : Segment} {path before : Path}
  {fault : Fault}

/-! ## Writing -/

/-- Where a slot cannot be assigned to, no contents can be assigned to it in the tree. -/
theorem assign_tree_of_error (hf : s.IsFinite cur) (h : s.assign cur seg new = .error fault)
    (t : Data) : (s.tree cur).assign seg t = .error fault := by
  cases hf with
  | atom a copy =>
    cases h
    rfl
  | @ref r c get values =>
    have ha : c.assign new seg = .error fault := by
      simp only [assign, get] at h
      cases hc : c.assign new seg with
      | error fault => simpa [hc, Except.map] using h
      | ok c' => simp [hc, Except.map] at h
    have hd : (c.contents s.tree).assign seg (s.tree new) = .error fault := by
      rw [contents_assign rfl, ha]
      rfl
    rw [tree_ref (.ref get values) get]
    exact Data.assign_eq_error hd t

/-- The last step of a write.  The value may share containers within itself; if it does not, the tree
stays separate. -/
theorem assign_new_spec (hf : s.IsFinite cur) (hs : s.Separate cur) (hn : s.IsFinite new)
    (ha : s.Apart Cell.isContainer new cur) (h : s.assign cur seg new = .ok s') :
    s'.IsFinite cur ∧ (s.Separate new → s'.Separate cur) ∧
      (s.tree cur).assign seg (s.tree new) = .ok (s'.tree cur) := by
  have hnr : ¬ s.Reaches new cur := by
    obtain ⟨r, c, c', rfl, hc, hca, -⟩ := assign_eq_ok h
    intro hr
    exact ha r c hc (Cell.assign_isContainer hca).1 hr (Reaches.refl s _)
  obtain ⟨hf', -, -, htree⟩ := assign_finite hf hn hnr h
  refine ⟨hf', fun hns => ?_, htree⟩
  obtain ⟨slot, hl⟩ : ∃ slot, s.lookup cur seg = .ok slot := by
    obtain ⟨r, c, c', rfl, hc, hca, -⟩ := assign_eq_ok h
    simpa [Store.lookup, cell?, hc] using Cell.lookup_of_assign hca
  exact assign_separate hf hs hn hns hnr hl (fun w hw _ => ha.symm.of_reaches hw) h

/-- Where a write cannot go down to the container of a slot, it cannot go down in the tree. -/
theorem Descent.stuck {next : Segment} (hf : s.IsFinite cur)
    (h : Descent s path (before ++ [seg]) cur seg next s' (.error fault)) (t : Data)
    (rest : Path) :
    (s.tree cur).writeFrom path before t (seg :: next :: rest) = (s.tree cur, .error fault) := by
  rw [Data.writeFrom]
  cases h with
  | astray lookup =>
    rw [lookup_tree hf, lookup]
    rfl
  | blocked lookup passage =>
    rw [lookup_tree hf, lookup]
    simp only [Except.map]
    rw [enter_tree (isFinite_of_lookup hf lookup), passage]
  | @refused slot c _ lookup passage assign =>
    have hk : Keeps s (s.alloc c).1 cur := (grows_alloc s c).keeps hf.closed
    rw [lookup_tree hf, lookup]
    simp only [Except.map]
    rw [enter_tree (isFinite_of_lookup hf lookup), passage]
    simp only [Data.update]
    rw [← hk.tree hf, assign_tree_of_error (hk.isFinite hf) assign, hk.tree hf]

/-- Writing along a path is writing into the tree. -/
theorem writeFrom_spec (hf : s.IsFinite cur) (hs : s.Separate cur) (hn : s.IsFinite new)
    (ha : s.Apart Cell.isContainer new cur) (rest : Path) :
    (s.writeFrom path before cur new rest).store.IsFinite cur ∧
      (s.Separate new → (s.writeFrom path before cur new rest).store.Separate cur) ∧
      (s.tree cur).writeFrom path before (s.tree new) rest =
        ((s.writeFrom path before cur new rest).store.tree cur,
          (s.writeFrom path before cur new rest).result) := by
  induction rest generalizing s before cur with
  | nil => exact ⟨hf, fun _ => hs, rfl⟩
  | cons seg rest ih =>
    cases rest with
    | nil =>
      rw [writeFrom, Data.writeFrom, Data.update]
      cases h : s.assign cur seg new with
      | error fault =>
        rw [assign_tree_of_error hf h]
        exact ⟨hf, fun _ => hs, rfl⟩
      | ok s' =>
        obtain ⟨hf', hs', htree⟩ := assign_new_spec hf hs hn ha h
        rw [htree]
        exact ⟨hf', hs', rfl⟩
    | cons next rest =>
      rcases writeFrom_descent s path before cur new seg next rest with
        ⟨fault, hdesc, hstore, hresult⟩ | ⟨s', child, hdesc, hstore, hresult⟩
      · rw [hstore, hresult, hdesc.stuck hf (s.tree new) rest]
        exact ⟨hf, fun _ => hs, rfl⟩
      · rw [hstore, hresult]
        have he : Edit s s' cur .none := hdesc.edit.1
        obtain ⟨hfocus, slot, hlookup, henter, hassign⟩ := descent_focus hf hs hdesc
        have hkn : Keeps s s' new := he.keeps hn.closed ha
        have han : s'.Apart Cell.isContainer new cur :=
          he.apart hn.closed (fun _ h => h) ha (apart_atom _ _ _ _ _).symm
        obtain ⟨hfc, hsc, hbelow⟩ := @ih s' child (before ++ [seg]) hfocus.child_isFinite
          hfocus.child_separate (hkn.isFinite hn) (han.symm.of_reaches hfocus.reaches).symm
        have hbe := writeFrom_edit s' path (before ++ [seg]) child new (next :: rest)
        obtain ⟨hf', -, htree⟩ := hfocus.edit hbe hfc
        refine ⟨hf', fun hns => hfocus.edit_separate hbe (hsc (hkn.separate hns)) han, ?_⟩
        rw [hkn.tree hn] at hbelow
        rw [Data.writeFrom, hlookup]
        simp only [henter]
        rw [hbelow, Data.update]
        simp only
        rw [← Data.assign_assign hassign, htree]

/-- Writing along a path is writing into the tree of the root. -/
theorem write_spec (hf : s.IsFinite cur) (hs : s.Separate cur) (hn : s.IsFinite new)
    (ha : s.Apart Cell.isContainer new cur) (path : Path) :
    (s.write cur path new).store.IsFinite cur ∧
      (s.Separate new → (s.write cur path new).store.Separate cur) ∧
      (s.tree cur).write path (s.tree new) =
        ((s.write cur path new).store.tree cur, (s.write cur path new).result) :=
  writeFrom_spec hf hs hn ha path

/-! ## Removing -/

variable {c c' : Cell} {r : Ref} {old root : Value} {keep : Bool}

/-- The last step of a removal. -/
theorem take_spec (hf : s.IsFinite (.ref r)) (hs : s.Separate (.ref r)) (hc : s.get? r = some c)
    (h : c.take keep seg = .ok (c', old)) :
    (s.put r c').IsFinite (.ref r) ∧ (s.put r c').Separate (.ref r) ∧
      (s.put r c').IsFinite old ∧
      (s.tree (.ref r)).take keep seg = .ok ((s.put r c').tree (.ref r), (s.put r c').tree old) := by
  have hc' : (s.put r c').get? r = some c' := get?_put_self hc c'
  have hkeep : ∀ w ∈ c.values, Keeps s (s.put r c') w := fun w hw =>
    keeps_put (hf.not_reaches hc hw) c'
  have hf' : (s.put r c').IsFinite (.ref r) := hf.put hc fun w hw => Cell.mem_take_values h hw
  have hold : (s.put r c').IsFinite old ∧ (s.put r c').tree old = s.tree old := by
    rcases Cell.take_old_mem h with rfl | hm
    · exact ⟨.atom _ _, rfl⟩
    · have hfo := hf.of_mem hc hm
      exact ⟨(hkeep old hm).isFinite hfo, (hkeep old hm).tree hfo⟩
  refine ⟨hf', ?_, hold.1, ?_⟩
  · rcases Cell.take_isContainer h with rfl | ⟨hk, hk'⟩
    · rw [put_self hc]
      exact hs
    · obtain ⟨hsv, hsp⟩ := hs.inv hc hk
      rcases Cell.take_values h with ⟨pre, post, hval, hval'⟩ | hsub
      · rw [hval] at hsp hsv hkeep
        obtain ⟨hpair, -⟩ := pairwise_beside hsp
        refine separate_ref hc' hk' hval' (fun w hw => ?_) hpair (separate_atom _ _ _)
          fun w _ => (apart_atom _ _ _ _ _).symm
        have hmem : w ∈ pre ++ old :: post :=
          List.perm_middle.mem_iff.2 (List.mem_cons_of_mem _ hw)
        exact ⟨hsv w hmem, hkeep w hmem⟩
      · refine .container hc' hk' (fun w hw => ?_) ?_
        · exact (hkeep w (hsub.subset hw)).separate (hsv w (hsub.subset hw))
        · exact (hsp.sublist hsub).imp_of_mem fun hv hw h =>
            h.keeps (hkeep _ (hsub.subset hv)) (hkeep _ (hsub.subset hw))
  · rw [tree_ref hf hc, contents_take rfl, h, tree_ref hf' hc', hold.2]
    simp only [Except.map, Except.ok.injEq, Prod.mk.injEq, and_true]
    refine Cell.contents_congr fun w hw => ?_
    rcases Cell.mem_take_values h hw with hm | rfl
    · exact ((hkeep w hm).tree (hf.of_mem hc hm)).symm
    · rfl

theorem remove_cons_cons (s : Store) (root : Value) (seg next : Segment) (rest : Path)
    (keep : Bool) :
    s.remove root (seg :: next :: rest) keep =
      match s.lookup root seg with
      | .error fault => .error fault
      | .ok slot =>
        if s.isContainer slot then s.remove slot (next :: rest) keep else .ok (s, .none) := by
  unfold remove
  rw [List.getLast?_cons_cons]
  cases hlast : (next :: rest).getLast? with
  | none => simp at hlast
  | some last =>
    simp only
    rw [holder?]
    · cases s.lookup root seg with
      | error fault => rfl
      | ok slot =>
        simp only
        cases s.isContainer slot <;> rfl
    · simp

/-- Removing is removing from the tree. -/
theorem remove_spec (hf : s.IsFinite root) (hs : s.Separate root) (path : Path) (keep : Bool) :
    match s.remove root path keep with
    | .error fault => (s.tree root).remove keep path = .error fault
    | .ok (s', old) => s'.IsFinite root ∧ s'.Separate root ∧ s'.IsFinite old ∧
        (s.tree root).remove keep path = .ok (s'.tree root, s'.tree old) := by
  induction path generalizing root with
  | nil => exact ⟨hf, hs, .atom _ _, rfl⟩
  | cons seg rest ih =>
    cases rest with
    | nil =>
      cases hf with
      | atom a copy => exact ⟨.atom _ _, hs, .atom _ _, rfl⟩
      | @ref r c get values =>
        have hf : s.IsFinite (.ref r) := .ref get values
        simp only [remove, List.getLast?_singleton, holder?, removeSlot, get, Data.remove]
        cases ht : c.take keep seg with
        | error fault =>
          simp only [Except.map]
          rw [tree_ref hf get, contents_take rfl, ht]
          rfl
        | ok p =>
          obtain ⟨c', old⟩ := p
          exact take_spec hf hs get ht
    | cons next rest =>
      rw [remove_cons_cons, Data.remove, lookup_tree hf]
      cases hl : s.lookup root seg with
      | error fault => rfl
      | ok slot =>
        have hfs := isFinite_of_lookup hf hl
        simp only [Except.map]
        rw [tree_isContainer hfs]
        cases hk : s.isContainer slot with
        | false => exact ⟨hf, hs, .atom _ _, rfl⟩
        | true =>
          have hfocus : s.Focus root seg slot := ⟨⟨hf, hl, hk⟩, hs⟩
          simp only [if_true]
          have hbelow := ih hfs hfocus.child_separate
          cases hr : s.remove slot (next :: rest) keep with
          | error fault =>
            rw [hr] at hbelow
            rw [hbelow]
          | ok p =>
            obtain ⟨s', old⟩ := p
            rw [hr] at hbelow
            obtain ⟨hfc, hsc, hfo, hrem⟩ := hbelow
            obtain ⟨hf', -, hassign⟩ := hfocus.edit (remove_edit hr) hfc
            have hs' := hfocus.edit_separate (remove_edit hr) hsc (apart_atom _ _ _ _ _)
            refine ⟨hf', hs', hfo, ?_⟩
            rw [hrem]
            simp only [hassign]

end PathStore.Store
