import PathStore.Proofs.Sharing
import PathStore.Proofs.Slots

/-!
# How far an edit reaches

An edit below a value changes containers that the value reaches and adds cells, and what it puts into
them comes from that value, from the value that is put in, or is nothing (`Edit`).  Writing along a
path is such an edit whatever its outcome (`write_edit`), and so is removing (`remove_edit`).  So
what has no container in common with the place of an edit keeps all it holds (`Edit.keeps`), and no
object of the library gets into data (`Edit.isData`).
-/

namespace PathStore.Store

/-! ## Definitions -/

/-- `w` comes from `v` or from `new`, is nothing, or is a cell that `s'` has and `s` has not. -/
def Origin (s s' : Store) (v new w : Value) : Prop :=
  s.Reaches v w ∨ s.Reaches new w ∨ w = .none ∨
    ∃ r, w = .ref r ∧ s.size ≤ r.index ∧ r.index < s'.size

/-- `s'` is `s` after containers below `v` were changed and cells added, for which `new` was used. -/
structure Edit (s s' : Store) (v new : Value) : Prop where
  size_le : s.size ≤ s'.size
  /-- Only containers that `v` reaches are changed. -/
  kept : ∀ r, r.index < s.size → s'.get? r = s.get? r ∨
    s.Reaches v (.ref r) ∧ ∃ c, s.get? r = some c ∧ c.isContainer = true
  /-- What is changed or added is a container, and what it holds has an origin. -/
  edited : ∀ r c', s'.get? r = some c' → s.get? r = some c' ∨
    c'.isContainer = true ∧ (∀ w ∈ c'.values, Origin s s' v new w) ∧
      ∀ k ∈ c'.keys, (∃ t, k = .text t) ∨
        ∃ r₀ c₀, s.Reaches v (.ref r₀) ∧ s.get? r₀ = some c₀ ∧ k ∈ c₀.keys

/-! ## Edits -/

variable {s s' s'' : Store} {v w x new : Value} {r : Ref} {c c' : Cell}

theorem Origin.widen (h : Origin s s' v .none w) (new : Value) : Origin s s' v new w := by
  rcases h with h | h | h | h
  · exact Or.inl h
  · exact Or.inr (Or.inr (Or.inl h.eq_of_atom))
  · exact Or.inr (Or.inr (Or.inl h))
  · exact Or.inr (Or.inr (Or.inr h))

theorem Origin.mono (h : Origin s s' v new w) (hle : s'.size ≤ s''.size) : Origin s s'' v new w := by
  rcases h with h | h | h | ⟨r, h, hge, hlt⟩
  · exact Or.inl h
  · exact Or.inr (Or.inl h)
  · exact Or.inr (Or.inr (Or.inl h))
  · exact Or.inr (Or.inr (Or.inr ⟨r, h, hge, hlt.trans_le hle⟩))

theorem Edit.refl (s : Store) (v new : Value) : Edit s s v new :=
  ⟨Nat.le_refl _, fun _ _ => Or.inl rfl, fun _ _ h => Or.inl h⟩

/-- Everything that is reached after an edit was reached before or has an origin. -/
theorem Edit.reaches (he : Edit s s' v new) (h : s'.Reaches x w) :
    s.Reaches x w ∨ Origin s s' v new w := by
  induction h with
  | refl => exact Or.inl (Reaches.refl s x)
  | @tail b w _ hbw ih =>
    obtain ⟨r, c', rfl, hc, hw⟩ := hbw.eq_ref
    rcases he.edited r c' hc with hc | ⟨-, hval, -⟩
    · -- the cell is as it was, so the way on from it is one before the edit
      have hstep : s.Reaches (.ref r) w := Reaches.of_mem hc hw
      rcases ih with ih | ih | ih | ih | ⟨r', hr', hle, -⟩
      · exact Or.inl (ih.trans hstep)
      · exact Or.inr (Or.inl (ih.trans hstep))
      · exact Or.inr (Or.inr (Or.inl (ih.trans hstep)))
      · cases ih
      · cases hr'
        have := get?_lt hc
        omega
    · exact Or.inr (hval w hw)

/-- What has no container in common with the place of an edit keeps everything. -/
theorem Edit.keeps (he : Edit s s' v new) (hx : s.Closed x)
    (ha : s.Apart Cell.isContainer x v) : Keeps s s' x := by
  intro r hr
  rcases he.kept r (hx r hr) with h | ⟨hv, c, hc, hk⟩
  · exact h
  · exact absurd hv (ha r c hc hk hr)

/-- What is apart from the place of an edit and from what is put in stays apart from that place. -/
theorem Edit.apart {kind : Cell → Bool} (he : Edit s s' v new) (hx : s.Closed x)
    (hk : ∀ c, c.isContainer = true → kind c = true) (hv : s.Apart kind x v)
    (hn : s.Apart kind x new) : s'.Apart kind x v := by
  have hkeep : Keeps s s' x := he.keeps hx (hv.of_imp hk)
  intro r c hc hkc hr hr'
  rw [hkeep.reaches_iff] at hr
  rw [hkeep r hr] at hc
  have hlt := hx r hr
  rcases he.reaches hr' with h | h | h | h | ⟨r', h, hle, -⟩
  · exact hv r c hc hkc hr h
  · exact hv r c hc hkc hr h
  · exact hn r c hc hkc hr h
  · cases h
  · cases h
    omega

/-- No object of the library gets into data by an edit of data with data. -/
theorem Edit.isData (he : Edit s s' v new) (hx : s.IsData x) (hv : s.IsData v)
    (hn : s.IsData new) : s'.IsData x := by
  intro w hw
  have horigin : s.ScalarAt w ∨ w = .none ∨
      ∃ r, w = .ref r ∧ s.size ≤ r.index ∧ r.index < s'.size := by
    rcases he.reaches hw with h | h | h | h
    · exact Or.inl (hx w h)
    · exact Or.inl (hv w h)
    · exact Or.inl (hn w h)
    · exact Or.inr h
  cases w with
  | atom a copy =>
    rcases horigin with h | h | ⟨r, h, -⟩
    · exact h
    · cases h
      rfl
    · cases h
  | ref r =>
    obtain ⟨c, hc⟩ : ∃ c, s'.get? r = some c := by
      rcases horigin with ⟨c, hc, -⟩ | h | ⟨r', h, -, hlt⟩
      · exact get?_isSome ((get?_lt hc).trans_le he.size_le)
      · cases h
      · cases h
        exact get?_isSome hlt
    refine ⟨c, hc, fun k hk => ?_⟩
    rcases he.edited r c hc with hc | ⟨-, -, hkeys⟩
    · rcases horigin with ⟨c', hc', h⟩ | h | ⟨r', h, hle, -⟩
      · rw [hc] at hc'
        cases hc'
        exact h k hk
      · cases h
      · cases h
        have := get?_lt hc
        omega
    · rcases hkeys k hk with ⟨t, rfl⟩ | ⟨r₀, c₀, hr₀, hc₀, hk₀⟩
      · rfl
      · exact ((isData_ref_iff hc₀).1 (hv.of_reaches hr₀)).1 k hk₀

/-- An edit that only arranges what is there, and then one below a value reached after it. -/
theorem Edit.trans {cur mid : Value} (h1 : Edit s s' cur .none) (hmid : s'.Reaches cur mid)
    (h2 : Edit s' s'' mid x) (hx : ∀ w, s'.Reaches x w → Origin s s' cur new w) :
    Edit s s'' cur new := by
  have below : ∀ w, s'.Reaches mid w → Origin s s' cur new w := fun w hw =>
    (h1.reaches (hmid.trans hw)).elim Or.inl (Origin.widen · new)
  refine ⟨h1.size_le.trans h2.size_le, fun r hr => ?_, fun r c'' hc => ?_⟩
  · rcases h2.kept r (by have := h1.size_le; omega) with h | ⟨hm, c, hc, hk⟩
    · rw [h]
      exact h1.kept r hr
    · rcases h1.kept r hr with h | h
      · refine Or.inr ⟨?_, c, by rw [← h, hc], hk⟩
        rcases h1.reaches (hmid.trans hm) with h | h | h | h | ⟨r', h, hle⟩
        · exact h
        · exact h
        · cases h.eq_of_atom
        · cases h
        · cases h
          omega
      · exact Or.inr h
  · have keysOld : ∀ r₀ c₀, s'.Reaches cur (.ref r₀) → s'.get? r₀ = some c₀ → ∀ k ∈ c₀.keys,
        (∃ t, k = .text t) ∨ ∃ r₁ c₁, s.Reaches cur (.ref r₁) ∧ s.get? r₁ = some c₁ ∧
          k ∈ c₁.keys := by
      intro r₀ c₀ hr₀ hc₀ k hk
      rcases h1.edited r₀ c₀ hc₀ with h | ⟨-, -, hkeys⟩
      · refine Or.inr ⟨r₀, c₀, ?_, h, hk⟩
        rcases h1.reaches hr₀ with hr | hr | hr | hr | ⟨r', hr, hle⟩
        · exact hr
        · exact hr
        · cases hr.eq_of_atom
        · cases hr
        · cases hr
          have := get?_lt h
          omega
      · exact hkeys k hk
    rcases h2.edited r c'' hc with h | ⟨hk, hval, hkeys⟩
    · rcases h1.edited r c'' h with h | ⟨hk, hval, hkeys⟩
      · exact Or.inl h
      · exact Or.inr ⟨hk, fun w hw => ((hval w hw).widen new).mono h2.size_le, hkeys⟩
    · refine Or.inr ⟨hk, fun w hw => ?_, fun k hkm => ?_⟩
      · rcases hval w hw with h | h | h | ⟨r', rfl, hle, hlt⟩
        · exact (below w h).mono h2.size_le
        · exact (hx w h).mono h2.size_le
        · exact Or.inr (Or.inr (Or.inl h))
        · exact Or.inr (Or.inr (Or.inr ⟨r', rfl, h1.size_le.trans hle, hlt⟩))
      · rcases hkeys k hkm with h | ⟨r₀, c₀, hr₀, hc₀, hk₀⟩
        · exact Or.inl h
        · exact keysOld r₀ c₀ (hmid.trans hr₀) hc₀ k hk₀

theorem Edit.below {cur : Value} (hcur : s.Reaches cur v) (h : Edit s s' v new) :
    Edit s s' cur new :=
  (Edit.refl s cur .none).trans hcur h fun _ hw => Or.inr (Or.inl hw)

theorem put_self (hc : s.get? r = some c) : s.put r c = s := by
  unfold Store.get? at hc
  obtain ⟨hlt, hc⟩ := Array.getElem?_eq_some_iff.1 hc
  unfold put
  rw [← hc, Array.setIfInBounds_def, dif_pos hlt, Array.set_getElem_self]

theorem edit_put (hc : s.get? r = some c) (hk : c.isContainer = true) (hk' : c'.isContainer = true)
    (hval : ∀ w ∈ c'.values, w ∈ c.values ∨ w = new ∨ w = .none)
    (hkeys : ∀ k ∈ c'.keys, k ∈ c.keys ∨ ∃ t, k = .text t) : Edit s (s.put r c') (.ref r) new := by
  refine ⟨by simp, fun r' hr' => ?_, fun r' c'' hc'' => ?_⟩
  · rw [get?_put]
    split
    · next heq =>
      obtain ⟨rfl, -⟩ := heq
      exact Or.inr ⟨Reaches.refl s _, c, hc, hk⟩
    · exact Or.inl rfl
  · rw [get?_put] at hc''
    split at hc''
    · next heq =>
      obtain ⟨rfl, -⟩ := heq
      cases hc''
      refine Or.inr ⟨hk', fun w hw => ?_, fun k hkm => ?_⟩
      · rcases hval w hw with h | rfl | h
        · exact Or.inl (Reaches.of_mem hc h)
        · exact Or.inr (Or.inl (Reaches.refl s _))
        · exact Or.inr (Or.inr (Or.inl h))
      · rcases hkeys k hkm with h | h
        · exact Or.inr ⟨r, c, Reaches.refl s _, hc, h⟩
        · exact Or.inl h
    · exact Or.inl hc''

theorem edit_alloc (hk : c.isContainer = true) (hval : ∀ w ∈ c.values, s.Reaches v w)
    (hkeys : ∀ k ∈ c.keys, ∃ t, k = .text t) : Edit s (s.alloc c).1 v .none := by
  refine ⟨by simp, fun r hr => ?_, fun r c' hc' => ?_⟩
  · rw [get?_alloc, if_neg (by omega)]
    exact Or.inl rfl
  · rw [get?_alloc] at hc'
    split at hc'
    · cases hc'
      exact Or.inr ⟨hk, fun w hw => Or.inl (hval w hw), fun k hkm => Or.inl (hkeys k hkm)⟩
    · exact Or.inl hc'

/-! ## Assigning -/

variable {cur : Value} {seg next : Segment} {path here before : Path}

theorem assign_eq_ok (h : s.assign v seg new = .ok s') :
    ∃ r c c', v = .ref r ∧ s.get? r = some c ∧ c.assign new seg = .ok c' ∧ s' = s.put r c' := by
  cases v with
  | atom a copy => cases h
  | ref r =>
    simp only [assign] at h
    cases hc : s.get? r with
    | none => simp [hc] at h
    | some c =>
      simp only [hc] at h
      cases ha : c.assign new seg with
      | error fault => simp [ha, Except.map] at h
      | ok c' =>
        simp only [ha, Except.map, Except.ok.injEq] at h
        exact ⟨r, c, c', rfl, hc, ha, h.symm⟩

theorem assign_edit (h : s.assign v seg new = .ok s') : Edit s s' v new := by
  obtain ⟨r, c, c', rfl, hc, ha, rfl⟩ := assign_eq_ok h
  obtain ⟨hk, hk'⟩ := Cell.assign_isContainer ha
  refine edit_put hc hk hk' (fun w hw => Cell.mem_assign_values ha hw) fun k hkm => ?_
  exact (Cell.mem_assign_keys ha hkm).imp_right fun h => ⟨_, h⟩

/-- A value that was assigned is reached. -/
theorem assign_reaches (h : s.assign v seg new = .ok s') : s'.Reaches v new := by
  obtain ⟨r, c, c', rfl, hc, ha, rfl⟩ := assign_eq_ok h
  exact Reaches.of_mem (get?_put_self hc c') (Cell.self_mem_assign ha)

theorem assignFresh_edit (hk : c.isContainer = true) (hval : ∀ w ∈ c.values, s.Reaches cur w)
    (hkeys : ∀ k ∈ c.keys, ∃ t, k = .text t)
    (h : (s.alloc c).1.assign cur seg (s.alloc c).2 = .ok s') : Edit s s' cur .none := by
  have h1 : Edit s (s.alloc c).1 cur .none := edit_alloc hk hval hkeys
  refine h1.trans (Reaches.refl _ cur) (assign_edit h) fun w hw => ?_
  rcases (reaches_ref_iff (get?_alloc_self s c)).1 hw with rfl | ⟨v, hv, hvw⟩
  · exact Or.inr (Or.inr (Or.inr ⟨_, rfl, Nat.le_refl _, by simp⟩))
  · rcases h1.reaches hvw with h | h
    · exact Or.inl ((hval v hv).trans h)
    · exact h

/-! ## Going down one level -/

variable {slot : Value}

/-- What going down one level does: the lookup can fail, a value can be in the way, a container can
fit, and else a new cell is put into the slot, which can be refused. -/
inductive Descent (s : Store) (path here : Path) (cur : Value) (seg next : Segment) :
    Store → Except Fault Value → Prop
  | astray {fault : Fault} (lookup : s.lookup cur seg = .error fault) :
      Descent s path here cur seg next s (.error fault)
  | blocked {slot : Value} (lookup : s.lookup cur seg = .ok slot)
      (passage : s.passage slot next = .blocked) :
      Descent s path here cur seg next s (.error (.showing path (.rawValue path here next)))
  | fits {slot : Value} (lookup : s.lookup cur seg = .ok slot)
      (passage : s.passage slot next = .fits) :
      Descent s path here cur seg next s (.ok slot)
  | refused {slot : Value} {c : Cell} {fault : Fault} (lookup : s.lookup cur seg = .ok slot)
      (passage : s.passage slot next = .replace c)
      (assign : (s.alloc c).1.assign cur seg (s.alloc c).2 = .error fault) :
      Descent s path here cur seg next s (.error fault)
  | replaced {slot : Value} {c : Cell} {s' : Store} (lookup : s.lookup cur seg = .ok slot)
      (passage : s.passage slot next = .replace c)
      (assign : (s.alloc c).1.assign cur seg (s.alloc c).2 = .ok s') :
      Descent s path here cur seg next s' (.ok (s.alloc c).2)

theorem descent (s : Store) (path here : Path) (cur : Value) (seg next : Segment) :
    Descent s path here cur seg next (s.descend path here cur seg next).store
      (s.descend path here cur seg next).result := by
  unfold descend
  cases hl : s.lookup cur seg with
  | error fault => exact .astray hl
  | ok slot =>
    simp only
    cases hp : s.passage slot next with
    | fits => exact .fits hl hp
    | blocked => exact .blocked hl hp
    | replace c =>
      simp only [assignFresh]
      cases ha : (s.alloc c).1.assign cur seg (s.alloc c).2 with
      | error fault => exact .refused hl hp ha
      | ok s' =>
        simp only [Effect.andThen_done]
        cases slot.isNone <;> exact .replaced hl hp ha

/-- The container that takes a slot is empty, or holds the items of the list that was there. -/
theorem passage_eq_replace (h : s.passage slot next = .replace c) :
    (slot.isNone = true ∧ c = fresh next) ∨
      ∃ r xs, slot = .ref r ∧ s.get? r = some (.list xs) ∧ next.isIndex = false ∧
        c = .mapping .plain (Entries.numbered 0 xs) := by
  unfold passage at h
  split at h
  · next hn =>
    cases h
    exact Or.inl ⟨hn, rfl⟩
  · split at h
    · cases h
    · cases h
    · next xs k hc =>
      cases h
      cases slot with
      | atom a copy => cases hc
      | ref r => exact Or.inr ⟨r, xs, rfl, hc, rfl, rfl⟩
    · cases h

theorem passage_replace (h : s.passage slot next = .replace c) :
    c.isContainer = true ∧ (∀ w ∈ c.values, s.Reaches slot w) ∧ ∀ k ∈ c.keys, ∃ t, k = .text t := by
  obtain ⟨-, rfl⟩ | ⟨r, xs, rfl, hc, -, rfl⟩ := passage_eq_replace h
  · cases next <;> simp [fresh, Cell.isContainer, Cell.values, Cell.keys]
  · refine ⟨rfl, fun w hw => ?_, fun k hk => ?_⟩
    · simp only [Cell.values, Entries.numbered_values] at hw
      exact Reaches.of_mem hc hw
    · obtain ⟨n, rfl⟩ := Entries.numbered_keys hk
      exact ⟨_, rfl⟩

theorem passage_fits (h : s.passage slot next = .fits) :
    slot.isNone = false ∧ s.isContainer slot = true := by
  unfold passage at h
  split at h
  · cases h
  · next hn =>
    refine ⟨by simpa using hn, ?_⟩
    split at h
    · next hc => simp [Store.isContainer, hc, Cell.isContainer]
    · next hc => simp [Store.isContainer, hc, Cell.isContainer]
    · cases h
    · cases h

theorem lookup_reaches (h : s.lookup cur seg = .ok slot) (hn : slot.isNone = false) :
    s.Reaches cur slot := by
  rcases lookup_mem h with rfl | h
  · cases hn
  · exact Relation.ReflTransGen.single h

theorem replaced_edit (hl : s.lookup cur seg = .ok slot) (hp : s.passage slot next = .replace c)
    (ha : (s.alloc c).1.assign cur seg (s.alloc c).2 = .ok s') : Edit s s' cur .none := by
  obtain ⟨hk, hval, hkeys⟩ := passage_replace hp
  refine assignFresh_edit hk (fun w hw => ?_) hkeys ha
  cases hn : slot.isNone with
  | false => exact (lookup_reaches hl hn).trans (hval w hw)
  | true =>
    -- an empty container has no values
    simp only [passage, hn, if_true, Passage.replace.injEq] at hp
    subst hp
    cases next <;> simp [fresh, Cell.values] at hw

theorem Descent.edit {e : Except Fault Value} (h : Descent s path here cur seg next s' e) :
    Edit s s' cur .none ∧ ∀ v, e = .ok v → s'.Reaches cur v := by
  cases h with
  | astray => exact ⟨Edit.refl s cur .none, fun v hv => by cases hv⟩
  | blocked => exact ⟨Edit.refl s cur .none, fun v hv => by cases hv⟩
  | refused => exact ⟨Edit.refl s cur .none, fun v hv => by cases hv⟩
  | fits lookup passage =>
    refine ⟨Edit.refl s cur .none, fun v hv => ?_⟩
    cases hv
    exact lookup_reaches lookup (passage_fits passage).1
  | replaced lookup passage assign =>
    refine ⟨replaced_edit lookup passage assign, fun v hv => ?_⟩
    cases hv
    exact assign_reaches assign

/-- Where a write cannot go down one level the store is as it was. -/
theorem Descent.store_eq {fault : Fault}
    (h : Descent s path here cur seg next s' (.error fault)) : s' = s := by
  cases h <;> rfl

/-! ## Writing -/

/-- A write that goes down one level ends as it ends from there on. -/
theorem writeFrom_of_descend {child : Value}
    (h : (s.descend path (before ++ [seg]) cur seg next).result = .ok child) (new : Value)
    (rest : Path) :
    (s.writeFrom path before cur new (seg :: next :: rest)).store =
        ((s.descend path (before ++ [seg]) cur seg next).store.writeFrom path (before ++ [seg]) child
          new (next :: rest)).store ∧
      (s.writeFrom path before cur new (seg :: next :: rest)).result =
        ((s.descend path (before ++ [seg]) cur seg next).store.writeFrom path (before ++ [seg]) child
          new (next :: rest)).result := by
  rw [writeFrom]
  exact Effect.andThen_of_ok h

/-- A write of more than one segment ends where it cannot go down one level, with nothing changed,
and else as it ends from there on. -/
theorem writeFrom_descent (s : Store) (path before : Path) (cur new : Value) (seg next : Segment)
    (rest : Path) :
    (∃ fault, Descent s path (before ++ [seg]) cur seg next s (.error fault) ∧
      (s.writeFrom path before cur new (seg :: next :: rest)).store = s ∧
      (s.writeFrom path before cur new (seg :: next :: rest)).result = .error fault) ∨
    ∃ s' child, Descent s path (before ++ [seg]) cur seg next s' (.ok child) ∧
      (s.writeFrom path before cur new (seg :: next :: rest)).store =
        (s'.writeFrom path (before ++ [seg]) child new (next :: rest)).store ∧
      (s.writeFrom path before cur new (seg :: next :: rest)).result =
        (s'.writeFrom path (before ++ [seg]) child new (next :: rest)).result := by
  have hdesc := descent s path (before ++ [seg]) cur seg next
  cases hr : (s.descend path (before ++ [seg]) cur seg next).result with
  | error fault =>
    rw [writeFrom]
    obtain ⟨hstore, hresult⟩ := Effect.andThen_of_error hr
    rw [hr] at hdesc
    have hsame := hdesc.store_eq
    rw [hsame] at hdesc hstore
    exact Or.inl ⟨fault, hdesc, hstore, hresult⟩
  | ok child =>
    rw [hr] at hdesc
    exact Or.inr ⟨_, child, hdesc, writeFrom_of_descend hr new rest⟩

/-- Writing is an edit below the value that it starts from, whatever its outcome. -/
theorem writeFrom_edit (s : Store) (path before : Path) (cur new : Value) (rest : Path) :
    Edit s (s.writeFrom path before cur new rest).store cur new := by
  induction rest generalizing s before cur with
  | nil => exact Edit.refl s cur new
  | cons seg rest ih =>
    cases rest with
    | nil =>
      rw [writeFrom]
      cases ha : s.assign cur seg new with
      | error fault => exact Edit.refl s cur new
      | ok s' => exact assign_edit ha
    | cons next rest =>
      rcases writeFrom_descent s path before cur new seg next rest with
        ⟨fault, -, hstore, -⟩ | ⟨s', child, hdesc, hstore, -⟩
      · rw [hstore]
        exact Edit.refl s cur new
      · rw [hstore]
        obtain ⟨he, hreach⟩ := hdesc.edit
        exact he.trans (hreach child rfl) (ih s' _ child) fun w hw =>
          (he.reaches hw).elim (fun h => Or.inr (Or.inl h)) (Origin.widen · new)

theorem write_edit (s : Store) (root : Value) (path : Path) (new : Value) :
    Edit s (s.write root path new).store root new :=
  writeFrom_edit s path [] root new path

/-! ## Removing -/

variable {root old : Value} {keep : Bool}

theorem holder?_reaches (h : s.holder? cur path = .ok (some v)) : s.Reaches cur v := by
  induction path generalizing cur with
  | nil =>
    cases h
    exact Reaches.refl s _
  | cons seg rest ih =>
    cases rest with
    | nil =>
      cases h
      exact Reaches.refl s _
    | cons next rest =>
      rw [holder?] at h
      · cases hl : s.lookup cur seg with
        | error fault => simp [hl] at h
        | ok slot =>
          simp only [hl] at h
          split at h
          · next hk =>
            have hn : slot.isNone = false := by
              cases slot with
              | atom a copy => simp [Store.isContainer, cell?] at hk
              | ref r => rfl
            exact (lookup_reaches hl hn).trans (ih h)
          · cases h
      · simp

/-- What removing does: nothing, or it takes the value of a slot out of one cell. -/
theorem remove_eq_ok (h : s.remove root path keep = .ok (s', old)) :
    (s' = s ∧ old = .none) ∨
      ∃ r c c' seg, s.Reaches root (.ref r) ∧ s.get? r = some c ∧
        c.take keep seg = .ok (c', old) ∧ s' = s.put r c' := by
  unfold remove at h
  split at h
  · cases h
    exact Or.inl ⟨rfl, rfl⟩
  · next seg _ =>
    cases hh : s.holder? root path with
    | error fault => simp [hh] at h
    | ok holder =>
      simp only [hh] at h
      split at h
      · cases h
      · next r heq =>
        cases heq
        unfold removeSlot at h
        cases hc : s.get? r with
        | none =>
          simp only [hc, Except.ok.injEq, Prod.mk.injEq] at h
          exact Or.inl ⟨h.1.symm, h.2.symm⟩
        | some c =>
          simp only [hc] at h
          cases ht : c.take keep seg with
          | error fault => simp [ht, Except.map] at h
          | ok p =>
            obtain ⟨c', o⟩ := p
            simp only [ht, Except.map, Except.ok.injEq, Prod.mk.injEq] at h
            obtain ⟨rfl, rfl⟩ := h
            exact Or.inr ⟨r, c, c', seg, holder?_reaches hh, hc, ht, rfl⟩
      · cases h
        exact Or.inl ⟨rfl, rfl⟩

/-- Removing is an edit below the root. -/
theorem remove_edit (h : s.remove root path keep = .ok (s', old)) : Edit s s' root .none := by
  obtain ⟨rfl, -⟩ | ⟨r, c, c', seg, hr, hc, ht, rfl⟩ := remove_eq_ok h
  · exact Edit.refl _ root .none
  · rcases Cell.take_isContainer ht with rfl | ⟨hk, hk'⟩
    · rw [put_self hc]
      exact Edit.refl s root .none
    · refine (edit_put hc hk hk' (fun w hw => ?_) fun k hkm => ?_).below hr
      · exact (Cell.mem_take_values ht hw).imp_right Or.inr
      · exact (Cell.mem_take_keys ht hkm).imp_right fun h => ⟨_, h⟩

/-- A finite value stays finite when the values of a cell are only taken away. -/
theorem IsFinite.put (hf : s.IsFinite v) (hc : s.get? r = some c)
    (hval : ∀ w ∈ c'.values, w ∈ c.values ∨ w = .none) : (s.put r c').IsFinite v := by
  induction hf with
  | atom a copy => exact .atom a copy
  | @ref r' c₀ get values ih =>
    by_cases heq : r = r'
    · subst heq
      rw [hc] at get
      cases get
      refine .ref (get?_put_self hc c') fun w hw => ?_
      rcases hval w hw with h | rfl
      · exact ih w h
      · exact .atom _ _
    · exact .ref (by rw [get?_put, if_neg (fun h => heq h.1), get]) ih

end PathStore.Store
