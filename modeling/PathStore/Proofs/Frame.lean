import Mathlib
import PathStore.Proofs.Operations
import PathStore.Proofs.Written

/-!
# What a write leaves alone

A write along one path and a read along another that diverges from it have nothing to do with each
other.  A value that was read is read again, and it holds what it held; nothing stays nothing; and
where the way was missing it is missing still, or it now ends in nothing, when the write has made
containers on it (`Survives`).  The read may well go through what the write has changed: through a
list that was filled up, or through the mapping that has taken the place of a list.  This holds along
one level (`Descent.survives`), so along the whole path (`writeFrom_survives`), and so for the
storage (`Storage.set_frame`).
-/

namespace PathStore

/-- Two paths part from each other: both go on at some place, and differently. -/
def Path.Diverges (path path' : Path) : Prop :=
  ∃ (i : Nat) (seg seg' : Segment), path[i]? = some seg ∧ path'[i]? = some seg' ∧ seg ≠ seg'

/-- Paths part at their first segments or after equal ones. -/
theorem Path.diverges_cons_iff {seg seg' : Segment} {path path' : Path} :
    Diverges (seg :: path) (seg' :: path') ↔ seg ≠ seg' ∨ Diverges path path' := by
  constructor
  · rintro ⟨i, a, b, ha, hb, hne⟩
    cases i with
    | zero =>
      cases ha
      cases hb
      exact Or.inl hne
    | succ i => exact Or.inr ⟨i, a, b, ha, hb, hne⟩
  · rintro (hne | ⟨i, a, b, ha, hb, hne⟩)
    · exact ⟨0, seg, seg', rfl, rfl, hne⟩
    · exact ⟨i + 1, a, b, ha, hb, hne⟩

theorem Path.not_diverges_nil {path : Path} : ¬ Diverges [] path ∧ ¬ Diverges path [] := by
  constructor
  · rintro ⟨i, a, b, hi, -⟩
    cases hi
  · rintro ⟨i, a, b, -, hi, -⟩
    cases hi

namespace Store

variable {s s' s'' : Store} {cur new child slot v w x : Value} {seg seg' next : Segment}
  {path path' before here : Path} {r : Ref} {c : Cell}

/-! ## Reads that survive -/

/-- The fault of a path that cannot be followed to its end. -/
def IsGap (path : Path) (fault : Fault) : Prop :=
  ∃ gap, fault = .showing path (.keyNotFound path gap)

/-- What reading along a path gives in `s'`, where it gave the first outcome in `s`: the same value,
of which `s'` has kept everything, or no value still. -/
inductive Survives (s s' : Store) (path : Path) : Except Fault Value → Except Fault Value → Prop
  | same {w : Value} (keeps : Keeps s s' w) : Survives s s' path (.ok w) (.ok w)
  | missing {fault fault' : Fault} (gap : IsGap path fault) (gap' : IsGap path fault') :
      Survives s s' path (.error fault) (.error fault')
  | emptied {fault : Fault} (gap : IsGap path fault) : Survives s s' path (.error fault) (.ok .none)

theorem Survives.trans {e e' e'' : Except Fault Value} (h : Survives s s' path e e')
    (h' : Survives s' s'' path e' e'') : Survives s s'' path e e'' := by
  cases h with
  | same keeps =>
    cases h' with
    | same keeps' => exact .same (keeps.trans keeps')
  | missing gap =>
    cases h' with
    | missing _ gap' => exact .missing gap gap'
    | emptied => exact .emptied gap
  | emptied gap =>
    cases h' with
    | same => exact .emptied gap

/-- A written segment addresses a slot of every value. -/
theorem lookup_isOk (h : seg.IsWritten) (s : Store) (v : Value) : ∃ w, s.lookup v seg = .ok w := by
  unfold Store.lookup
  cases s.cell? v with
  | none => exact ⟨_, rfl⟩
  | some c => exact Cell.lookup_isOk h c

theorem Keeps.of_lookup (hk : Keeps s s' v) (hl : s.lookup v seg = .ok w) : Keeps s s' w := by
  cases hn : w.isNone with
  | true =>
    cases w with
    | atom a copy => exact fun r hr => by cases hr.eq_of_atom
    | ref r => cases hn
  | false => exact hk.of_reaches (lookup_reaches hl hn)

/-- Reading from a value of which everything is kept survives. -/
theorem Keeps.survives (hk : Keeps s s' v) (path before : Path) {rest : Path}
    (hw : ∀ seg ∈ rest, seg.IsWritten) :
    Survives s s' path (s.readFrom path before v rest) (s'.readFrom path before v rest) := by
  induction rest generalizing v before with
  | nil => exact .same hk
  | cons seg rest ih =>
    obtain ⟨hseg, hw⟩ := List.forall_mem_cons.1 hw
    obtain ⟨w, hl⟩ := lookup_isOk hseg s v
    rw [readFrom, readFrom, hk.lookup, hl]
    cases v.isNone with
    | true => exact .missing ⟨before, rfl⟩ ⟨before, rfl⟩
    | false => exact ih (hk.of_lookup hl) (before ++ [seg]) hw

theorem isFinite_of_readFrom (hf : s.IsFinite v) {rest : Path}
    (h : s.readFrom path before v rest = .ok w) : s.IsFinite w := by
  induction rest generalizing v before with
  | nil =>
    cases h
    exact hf
  | cons seg rest ih =>
    rw [readFrom] at h
    split at h
    · cases h
    · split at h
      · cases h
      · next hl => exact ih (isFinite_of_lookup hf hl) h

/-! ## Slots beside the one that is written -/

/-- A slot is found as it was, and what stands in it has kept everything. -/
def SlotKept (s s' : Store) (cur : Value) (seg : Segment) : Prop :=
  s'.lookup cur seg = s.lookup cur seg ∧ ∀ w, s.lookup cur seg = .ok w → Keeps s s' w

theorem SlotKept.trans (h : SlotKept s s' cur seg) (h' : SlotKept s' s'' cur seg) :
    SlotKept s s'' cur seg :=
  ⟨h'.1.trans h.1, fun w hw => (h.2 w hw).trans (h'.2 w (h.1.trans hw))⟩

theorem Keeps.slotKept (hk : Keeps s s' cur) (seg : Segment) : SlotKept s s' cur seg :=
  ⟨hk.lookup seg, fun _ hw => hk.of_lookup hw⟩

/-- Reading through a slot that is kept survives. -/
theorem SlotKept.survives (h : SlotKept s s' cur seg) (path before : Path) {rest : Path}
    (hw : ∀ x ∈ seg :: rest, x.IsWritten) :
    Survives s s' path (s.readFrom path before cur (seg :: rest))
      (s'.readFrom path before cur (seg :: rest)) := by
  obtain ⟨hseg, hw⟩ := List.forall_mem_cons.1 hw
  obtain ⟨w, hl⟩ := lookup_isOk hseg s cur
  rw [readFrom, readFrom, h.1, hl]
  cases cur.isNone with
  | true => exact .missing ⟨before, rfl⟩ ⟨before, rfl⟩
  | false => exact (h.2 w hl).survives path (before ++ [seg]) hw

/-- Assigning to a slot keeps the others. -/
theorem assign_slotKept (hf : s.IsFinite cur) (h : s.assign cur seg x = .ok s')
    (hs : seg.IsWritten) (hs' : seg'.IsWritten) (hne : seg' ≠ seg) : SlotKept s s' cur seg' := by
  obtain ⟨r, c, c', rfl, hc, hca, rfl⟩ := assign_eq_ok h
  have hc' : (s.put r c').get? r = some c' := get?_put_self hc c'
  have hl : s.lookup (.ref r) seg' = c.lookup seg' := by simp only [Store.lookup, cell?, hc]
  refine ⟨?_, fun w hw => ?_⟩
  · rw [hl, ← Cell.lookup_assign_of_ne hca hs hs' hne]
    simp only [Store.lookup, cell?, hc']
  · rw [hl] at hw
    rcases Cell.lookup_mem hw with rfl | hm
    · exact keeps_put (fun h => by cases h.eq_of_atom) c'
    · exact keeps_put (hf.not_reaches hc hm) c'

/-- Putting a new container into a slot keeps the others. -/
theorem replaced_slotKept (hf : s.IsFinite cur)
    (h : (s.alloc c).1.assign cur seg (s.alloc c).2 = .ok s')
    (hs : seg.IsWritten) (hs' : seg'.IsWritten) (hne : seg' ≠ seg) : SlotKept s s' cur seg' := by
  have hk : Keeps s (s.alloc c).1 cur := (grows_alloc s c).keeps hf.closed
  exact (hk.slotKept seg').trans (assign_slotKept (hk.isFinite hf) h hs hs' hne)

/-- An edit below the container in one slot keeps the others. -/
theorem Focus.slotKept (h : s.Focus cur seg child) (he : Edit s s' child new)
    (hs : seg.IsWritten) (hs' : seg'.IsWritten) (hne : seg' ≠ seg) : SlotKept s s' cur seg' := by
  refine ⟨h.lookup_edit he seg', fun w hw => ?_⟩
  cases hn : w.isNone with
  | true =>
    cases w with
    | atom a copy => exact fun r hr => by cases hr.eq_of_atom
    | ref r => cases hn
  | false =>
    have hnc := isNone_of_isContainer h.isContainer
    obtain ⟨r, c, rfl, hc, hk, hl⟩ := isContainer_of_lookup h.lookup hnc
    have hw' : c.lookup seg' = .ok w := by simpa [Store.lookup, cell?, hc] using hw
    obtain ⟨pre, post, hval, hmem⟩ := Cell.lookup_beside hl hnc hw' hn hs hs' hne
    have hsp := (h.separate.inv hc hk).2
    rw [hval] at hsp
    exact he.keeps (isFinite_of_lookup h.isFinite hw).closed ((pairwise_beside hsp).2 w hmem)

theorem Descent.slotKept (hf : s.IsFinite cur) (h : Descent s path here cur seg next s' (.ok child))
    (hs : seg.IsWritten) (hs' : seg'.IsWritten) (hne : seg' ≠ seg) : SlotKept s s' cur seg' := by
  cases h with
  | fits => exact Keeps.slotKept (fun _ _ => rfl) seg'
  | replaced _ _ assign => exact replaced_slotKept hf assign hs hs' hne

/-! ## The slot that is gone through -/

theorem IsFinite.lt_size (h : s.IsFinite cur) : ∀ r, cur = .ref r → r.index < s.size := by
  rintro r rfl
  exact h.closed r (Reaches.refl s _)

/-- A new container that takes a slot is there with what it holds. -/
theorem replaced_get? (hcur : ∀ r, cur = .ref r → r.index < s.size)
    (h : (s.alloc c).1.assign cur seg (s.alloc c).2 = .ok s') : s'.get? ⟨s.size⟩ = some c := by
  obtain ⟨r, c₀, c', rfl, -, -, rfl⟩ := assign_eq_ok h
  have hr : r.index < s.size := hcur r rfl
  rw [get?_put, if_neg, get?_alloc_self]
  rintro ⟨rfl, -⟩
  exact Nat.lt_irrefl _ hr

/-- What a new container takes the slot of keeps everything. -/
theorem replaced_keeps (hf : s.IsFinite cur) (hl : s.lookup cur seg = .ok slot)
    (hn : slot.isNone = false) (h : (s.alloc c).1.assign cur seg (s.alloc c).2 = .ok s') :
    Keeps s s' slot := by
  obtain ⟨r, c₀, c', rfl, -, -, rfl⟩ := assign_eq_ok h
  have hkeep : Keeps s (s.alloc c).1 slot :=
    (grows_alloc s c).keeps (isFinite_of_lookup hf hl).closed
  refine hkeep.trans (keeps_put (fun hr => ?_) c')
  rw [hkeep.reaches_iff] at hr
  exact not_reaches_of_lookup hf hl hn hr

/-- What is read from the slot of a write survives going down through it. -/
theorem Descent.survives (hf : s.IsFinite cur)
    (h : Descent s path here cur seg next s' (.ok child)) (hl : s.lookup cur seg = .ok slot)
    (path' before : Path) {rest : Path} (hne : rest ≠ []) (hw : ∀ seg ∈ rest, seg.IsWritten) :
    Survives s s' path' (s.readFrom path' before slot rest)
      (s'.readFrom path' before child rest) := by
  cases h with
  | fits lookup =>
    rw [lookup] at hl
    cases hl
    exact Keeps.survives (fun _ _ => rfl) path' before hw
  | @replaced slot' c _ lookup passage assign =>
    rw [lookup] at hl
    cases hl
    have hget := replaced_get? hf.lt_size assign
    cases rest with
    | nil => exact absurd rfl hne
    | cons first rest =>
      obtain ⟨hfirst, hw⟩ := List.forall_mem_cons.1 hw
      have hlc : s'.lookup (s.alloc c).2 first = c.lookup first := by
        simp only [Store.lookup, alloc, cell?]
        rw [show (⟨s.cells.size⟩ : Ref) = ⟨s.size⟩ from rfl, hget]
      have hn : (s.alloc c).2.isNone = false := rfl
      rw [readFrom, readFrom, hlc, hn]
      obtain ⟨hnone, rfl⟩ | ⟨r, xs, rfl, hc, -, rfl⟩ := passage_eq_replace passage
      · -- nothing was there, and nothing is in the new container
        have hempty : (fresh next).lookup first = .ok .none := by
          cases next with
          | key k => exact Cell.lookup_mapping hfirst.isWritable .plain []
          | index p =>
            cases first with
            | key k => rfl
            | index q => exact itemAt_of_nonneg hfirst.1
        rw [hempty, hnone]
        cases rest with
        | nil => exact .emptied ⟨before, rfl⟩
        | cons second rest => exact .missing ⟨before, rfl⟩ ⟨before ++ [first], rfl⟩
      · -- a list was there, and its items are found in the new container
        have hls : s.lookup (.ref r) first = (Cell.list xs).lookup first := by
          simp only [Store.lookup, cell?, hc]
        rw [Cell.lookup_numbered hfirst, hls]
        obtain ⟨w, hlw⟩ := Cell.lookup_isOk hfirst (.list xs)
        rw [hlw]
        have hkslot : Keeps s s' (.ref r) := replaced_keeps hf lookup rfl assign
        exact (hkslot.of_lookup (hls.trans hlw)).survives path' (before ++ [first]) hw

/-! ## The whole path -/

/-- A write of more than one segment that succeeds goes down one level and on from there. -/
theorem writeFrom_singleton (h : (s.writeFrom path before cur new [seg]).result = .ok ()) :
    ∃ s', s.assign cur seg new = .ok s' ∧ s.writeFrom path before cur new [seg] = .done s' () := by
  rw [writeFrom] at h ⊢
  cases ha : s.assign cur seg new with
  | error fault =>
    rw [ha] at h
    cases h
  | ok s' => exact ⟨s', rfl, rfl⟩

theorem writeFrom_cons_cons {rest : Path}
    (h : (s.writeFrom path before cur new (seg :: next :: rest)).result = .ok ()) :
    ∃ s₁ child, Descent s path (before ++ [seg]) cur seg next s₁ (.ok child) ∧
      (s.writeFrom path before cur new (seg :: next :: rest)).store =
        (s₁.writeFrom path (before ++ [seg]) child new (next :: rest)).store ∧
      (s₁.writeFrom path (before ++ [seg]) child new (next :: rest)).result = .ok () := by
  rcases writeFrom_descent s path before cur new seg next rest with
    ⟨fault, -, -, hresult⟩ | ⟨s₁, child, hdesc, hstore, hresult⟩
  · rw [hresult] at h
    cases h
  · exact ⟨s₁, child, hdesc, hstore, hresult.symm.trans h⟩

/-- What is read along a path that diverges survives a write. -/
theorem writeFrom_survives (hf : s.IsFinite cur) (hs : s.Separate cur) (hn : s.Closed new)
    (ha : s.Apart Cell.isContainer new cur) {rest rest' : Path}
    (hw : ∀ seg ∈ rest, seg.IsWritten) (hw' : ∀ seg ∈ rest', seg.IsWritten)
    (hd : rest.Diverges rest')
    (h : (s.writeFrom path before cur new rest).result = .ok ()) (before' : Path) :
    Survives s (s.writeFrom path before cur new rest).store path'
      (s.readFrom path' before' cur rest')
      ((s.writeFrom path before cur new rest).store.readFrom path' before' cur rest') := by
  induction rest generalizing s before cur rest' before' with
  | nil => exact absurd hd Path.not_diverges_nil.1
  | cons seg rest ih =>
    cases rest' with
    | nil => exact absurd hd Path.not_diverges_nil.2
    | cons seg' rest' =>
      have hseg := hw seg List.mem_cons_self
      have hseg' := hw' seg' List.mem_cons_self
      rw [Path.diverges_cons_iff] at hd
      cases rest with
      | nil =>
        have hne : seg' ≠ seg := (hd.resolve_right Path.not_diverges_nil.1).symm
        obtain ⟨s', hassign, hdone⟩ := writeFrom_singleton h
        rw [hdone]
        exact (assign_slotKept hf hassign hseg hseg' hne).survives path' before' hw'
      | cons next rest =>
        obtain ⟨s₁, child, hdesc, hstore, hbelow⟩ := writeFrom_cons_cons h
        rw [hstore]
        have hfocus := (descent_focus hf hs hdesc).1
        have he := writeFrom_edit s₁ path (before ++ [seg]) child new (next :: rest)
        by_cases hne : seg' = seg
        · -- the same slot: the read goes on from the container that the write goes on in
          subst hne
          have hd := hd.resolve_left fun hne => hne rfl
          have hrest : rest' ≠ [] := by
            rintro rfl
            exact Path.not_diverges_nil.2 hd
          obtain ⟨he₁, hreach⟩ := hdesc.edit
          have hkn : Keeps s s₁ new := he₁.keeps hn ha
          have han : s₁.Apart Cell.isContainer new cur :=
            he₁.apart hn (fun _ h => h) ha (apart_atom _ _ _ _ _).symm
          have hon := ih hfocus.child_isFinite hfocus.child_separate (hkn.closed hn)
            (han.symm.of_reaches (hreach child rfl)).symm (List.forall_mem_cons.1 hw).2
            (List.forall_mem_cons.1 hw').2 hd hbelow (before' ++ [seg'])
          obtain ⟨slot, hl⟩ := lookup_isOk hseg' s cur
          rw [readFrom, readFrom, hl, hfocus.lookup_edit he, hfocus.lookup]
          cases cur.isNone with
          | true => exact .missing ⟨before', rfl⟩ ⟨before', rfl⟩
          | false =>
            exact (hdesc.survives hf hl path' _ hrest (List.forall_mem_cons.1 hw').2).trans hon
        · -- different slots: that of the read is kept
          have hkept := (hdesc.slotKept hf hseg hseg' hne).trans
            (hfocus.slotKept he hseg hseg' hne)
          exact hkept.survives path' before' hw'

end Store

/-! ## Storages -/

namespace Storage

open Store

theorem isWritten_of_keyPath {s : Store} {key : Text} {copy : Nat} {path : Path}
    (h : keyPath s (.atom (.text key) copy) = .ok path) : ∀ seg ∈ path, seg.IsWritten :=
  Atom.isWritten_of_path ((keyPath_scalar rfl copy).symm.trans h)

variable {s : Store} {st : Storage} {new : Value} {p q : Text} {i j : Nat} {path path' : Path}

/-- What is got under a key whose path diverges survives setting a value. -/
theorem set_survives (hf : s.IsFinite st.root) (hs : s.Separate st.root) (hn : s.Closed new)
    (ha : s.Apart Cell.isContainer new st.root)
    (hp : keyPath s (.atom (.text p) i) = .ok path)
    (hq : keyPath s (.atom (.text q) j) = .ok path') (hd : path.Diverges path')
    (h : (st.set s (.atom (.text p) i) new).result = .ok ()) :
    Survives s (st.set s (.atom (.text p) i) new).store path' (st.get s (.atom (.text q) j))
      (st.get (st.set s (.atom (.text p) i) new).store (.atom (.text q) j)) := by
  -- the path of a text is the same in every store
  have hq' : ∀ s', keyPath s' (.atom (.text q) j) = .ok path' := fun _ => hq
  simp only [get, hq']
  obtain ⟨hstore, hresult⟩ := st.set_of_keyPath hp new
  rw [hresult] at h
  rw [hstore]
  exact writeFrom_survives hf hs hn ha (isWritten_of_keyPath hp) (isWritten_of_keyPath hq) hd h []

/-- Setting a value that has no container in common with an unshared tree does not disturb what is
got under a key whose path diverges: a value, or nothing, is got again, with the contents that it
had, and a key that was not found is not found still or gives nothing. -/
theorem set_frame (hu : s.Unshared st.root) (hn : s.Closed new)
    (ha : s.Apart Cell.isContainer new st.root)
    (hp : keyPath s (.atom (.text p) i) = .ok path)
    (hq : keyPath s (.atom (.text q) j) = .ok path') (hd : path.Diverges path')
    (h : (st.set s (.atom (.text p) i) new).result = .ok ()) :
    (∀ w, st.get s (.atom (.text q) j) = .ok w →
      st.get (st.set s (.atom (.text p) i) new).store (.atom (.text q) j) = .ok w ∧
        (st.set s (.atom (.text p) i) new).store.tree w = s.tree w) ∧
    ∀ asked gap, st.get s (.atom (.text q) j) = .error (.keyNotFound asked gap) →
      (∃ gap', st.get (st.set s (.atom (.text p) i) new).store (.atom (.text q) j) =
        .error (.keyNotFound asked gap')) ∨
      st.get (st.set s (.atom (.text p) i) new).store (.atom (.text q) j) = .ok .none := by
  have hsurv := set_survives hu.isFinite hu.separate hn ha hp hq hd h
  generalize st.get (st.set s (.atom (.text p) i) new).store (.atom (.text q) j) = after at *
  constructor
  · intro w hw
    have hfw : s.IsFinite w := by
      simp only [get, hq] at hw
      exact isFinite_of_readFrom hu.isFinite hw
    rw [hw] at hsurv
    cases hsurv with
    | same keeps => exact ⟨rfl, keeps.tree hfw⟩
  · intro asked gap hw
    have hpath : path'.isWritable = true :=
      Segment.IsWritten.path_isWritable (isWritten_of_keyPath hq)
    rw [hw] at hsurv
    cases hsurv with
    | missing hgap hgap' =>
      obtain ⟨gap₀, hgap⟩ := hgap
      obtain ⟨gap', rfl⟩ := hgap'
      rw [Fault.showing_of_isWritable hpath] at hgap ⊢
      cases hgap
      exact Or.inl ⟨gap', rfl⟩
    | emptied => exact Or.inr rfl

/-- A name is set below a list, which becomes a mapping, and an item of the list is got again. -/
theorem set_frame_through_list :
    ∃ (s s' : Store) (st : Storage),
      s.tree st.root =
        .mapping .plain [(.text "a", .list [.leaf (.int 1), .leaf (.int 2)])] ∧
      s' = (st.set s (.atom (.text "a.b") 0) (.ofAtom (.int 5))).store ∧
      s'.tree st.root = .mapping .plain [(.text "a", .mapping .plain
        [(.text "0", .leaf (.int 1)), (.text "1", .leaf (.int 2)), (.text "b", .leaf (.int 5))])] ∧
      st.get s (.atom (.text "a[1]") 0) = .ok (.ofAtom (.int 2)) ∧
      st.get s' (.atom (.text "a[1]") 0) = .ok (.ofAtom (.int 2)) := by
  have hu : (Store.empty.load (.mapping .plain
      [(.text "a", .list [.leaf (.int 1), .leaf (.int 2)])])).1.Unshared (.ref ⟨1⟩) := by
    decide +kernel
  have hd : Path.Diverges [.key "a", .key "b"] [.key "a", .index 1] :=
    ⟨1, .key "b", .index 1, rfl, rfl, by decide⟩
  have hframe := @set_frame _ ⟨.ref ⟨1⟩, 0⟩ (.ofAtom (.int 5)) "a.b" "a[1]" 0 0 _ _ hu
    (IsFinite.atom _ _).closed (apart_atom _ _ _ _ _) (by cbv) (by cbv) hd (by cbv)
  exact ⟨_, _, _, by cbv, rfl, by cbv, by cbv, (hframe.1 (.ofAtom (.int 2)) (by cbv)).1⟩

end Storage

end PathStore
