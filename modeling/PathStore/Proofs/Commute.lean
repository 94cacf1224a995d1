import PathStore.Proofs.Frame
import PathStore.Proofs.Snapshots
import PathStore.Proofs.Alike

/-!
# Writes that commute

Writing along one path and along another that diverges from it does not build the same tree in both
orders: a list that the one write makes is kept as a mapping when the other has made a mapping before.
What the trees read as is the same.  A write that succeeds puts contents under a path of names,
whatever containers it makes or changes on the way (`Puts`, `puts_of_writeFrom`); two of these along
diverging paths lead to alike trees in both orders (`Puts.comm`), so nothing that is read afterwards
tells the orders apart (`Storage.set_comm`).
-/

namespace PathStore

namespace Data

variable {t t' u u' x x' y y' slot child new a b : Data} {seg : Segment} {path before here rest : Path}

/-! ## Contents under a path of names -/

/-- `u` is what `t` reads as with `new` at the end of a path. -/
inductive Puts (new : Data) : Path → Data → Data → Prop
  | nil (t : Data) : Puts new [] t new
  | cons {seg : Segment} {rest : Path} {t u x : Data} (below : Puts new rest (t.entry seg.spelling) x)
      (sets : Sets t u seg.spelling x) : Puts new (seg :: rest) t u

/-- Putting contents under a path does not tell alike contents apart. -/
theorem Puts.alike (h : Puts new path t u) (h' : Puts new path t' u') (ht : Alike t t') :
    Alike u u' := by
  induction h generalizing t' u' with
  | nil t =>
    cases h' with
    | nil => exact .refl new
  | cons below sets ih =>
    cases h' with
    | cons below' sets' => exact ht.sets sets sets' (ih below' (ht.entry _))

/-- Putting contents under diverging paths leads to alike trees in both orders. -/
theorem Puts.comm {path path' : Path} (hw : ∀ seg ∈ path, seg.IsWritten)
    (hw' : ∀ seg ∈ path', seg.IsWritten) (hd : path.Diverges path') (ht : Alike t t')
    (h₁ : Puts a path t x) (h₁₂ : Puts b path' x y) (h₂ : Puts b path' t' x')
    (h₂₁ : Puts a path x' y') : Alike y y' := by
  induction path generalizing path' t t' x x' y y' with
  | nil => exact absurd hd Path.not_diverges_nil.1
  | cons seg rest ih =>
    cases path' with
    | nil => exact absurd hd Path.not_diverges_nil.2
    | cons seg' rest' =>
      obtain ⟨hseg, hrest⟩ := List.forall_mem_cons.1 hw
      obtain ⟨hseg', hrest'⟩ := List.forall_mem_cons.1 hw'
      cases h₁ with
      | @cons _ _ _ _ v₁ below₁ sets₁ =>
      cases h₁₂ with
      | @cons _ _ _ _ v₁₂ below₁₂ sets₁₂ =>
      cases h₂ with
      | @cons _ _ _ _ v₂ below₂ sets₂ =>
      cases h₂₁ with
      | @cons _ _ _ _ v₂₁ below₂₁ sets₂₁ =>
      refine ht.of_entry sets₁₂.isContainer sets₂₁.isContainer (sets₁₂.kind.trans sets₁.kind)
        (sets₂₁.kind.trans sets₂.kind) (sets₁₂.others.trans sets₁.others)
        (sets₂₁.others.trans sets₂.others) fun name => ?_
      rw [sets₁₂.entry, sets₁.entry, sets₂₁.entry, sets₂.entry]
      rw [Path.diverges_cons_iff] at hd
      by_cases hne : seg = seg'
      · -- the paths go on together: both writes go on in what is under one name
        subst hne
        rw [sets₁.entry, if_pos rfl] at below₁₂
        rw [sets₂.entry, if_pos rfl] at below₂₁
        have hon := ih hrest hrest' (hd.resolve_left fun hne => hne rfl) (ht.entry seg.spelling)
          below₁ below₁₂ below₂ below₂₁
        split
        · exact hon
        · exact ht.entry name
      · -- the paths part: each write finds under its name what was there at first
        have hname : seg.spelling ≠ seg'.spelling := fun h => hne ((hseg.spelling_inj hseg').1 h)
        rw [sets₁.entry, if_neg hname] at below₁₂
        rw [sets₂.entry, if_neg hname.symm] at below₂₁
        have hb : Alike v₁₂ v₂ := below₁₂.alike below₂ (ht.entry seg'.spelling)
        have ha : Alike v₁ v₂₁ := below₁.alike below₂₁ (ht.entry seg.spelling)
        by_cases hn : seg.spelling = name
        · rw [if_neg fun h => hname (hn.trans h.symm), if_pos hn, if_pos hn]
          exact ha
        · rw [if_neg hn, if_neg hn]
          split
          · exact hb
          · exact ht.entry name

/-! ## Writes -/

/-- A container that a write goes on in reads as what was in the slot. -/
theorem entries_of_enter {next : Segment} (h : enter path here next slot = .ok child) :
    child.entries = slot.entries ∧ child.mappingKind = slot.mappingKind := by
  cases hn : slot.isNone with
  | true =>
    rw [enter_of_isNone hn] at h
    cases h
    obtain rfl : slot = nothing := by
      cases slot with
      | leaf a => cases a <;> first | rfl | cases hn
      | _ => cases hn
    cases next <;> exact ⟨rfl, rfl⟩
  | false =>
    cases hk : slot.isContainer with
    | true =>
      obtain ⟨c, hc, -, hes, hkind⟩ := enter_of_isContainer hk path here next
      rw [h] at hc
      cases hc
      exact ⟨hes, hkind⟩
    | false =>
      rw [enter_of_blocked hn hk] at h
      cases h

/-- What contents read as is all that matters to putting something below them. -/
theorem Puts.of_entries (h : Puts new (seg :: rest) child u) (hes : child.entries = slot.entries)
    (hkind : child.mappingKind = slot.mappingKind) : Puts new (seg :: rest) slot u := by
  have hentry : ∀ name, child.entry name = slot.entry name := fun name => by
    rw [Data.entry, Data.entry, hes]
  have hothers : child.others = slot.others := by
    rw [Data.others, Data.others, hes]
  cases h with
  | cons below sets =>
    rw [hentry] at below
    refine .cons below ⟨sets.isContainer, sets.kind.trans hkind, fun name => ?_,
      sets.others.trans hothers⟩
    rw [sets.entry, hentry]

/-- An update that succeeds puts into the slot what is below. -/
theorem sets_of_update {below : Data × Except Fault Unit} (hw : seg.IsWritten)
    (h : (t.update seg below).2 = .ok ()) :
    below.2 = .ok () ∧ Sets t (t.update seg below).1 seg.spelling below.1 := by
  unfold update at h ⊢
  cases ha : t.assign seg below.1 with
  | error fault =>
    rw [ha] at h
    cases h
  | ok u =>
    rw [ha] at h
    exact ⟨h, assign_sets hw ha⟩

/-- A write that succeeds puts its contents at the end of the path. -/
theorem puts_of_writeFrom (hw : ∀ x ∈ seg :: rest, x.IsWritten)
    (h : (t.writeFrom path before new (seg :: rest)).2 = .ok ()) :
    Puts new (seg :: rest) t (t.writeFrom path before new (seg :: rest)).1 := by
  induction rest generalizing t seg before with
  | nil => exact .cons (.nil _) (sets_of_update (hw seg List.mem_cons_self) h).2
  | cons next rest ih =>
    obtain ⟨hseg, hw⟩ := List.forall_mem_cons.1 hw
    rw [writeFrom, lookup_written hseg] at h ⊢
    simp only at h ⊢
    cases henter : enter path (before ++ [seg]) next (t.entry seg.spelling) with
    | error fault =>
      rw [henter] at h
      cases h
    | ok child =>
      rw [henter] at h
      simp only at h ⊢
      obtain ⟨hbelow, hsets⟩ := sets_of_update hseg h
      obtain ⟨hes, hkind⟩ := entries_of_enter henter
      exact .cons ((ih hw hbelow).of_entries hes hkind) hsets

end Data

/-! ## Storages -/

namespace Storage

open Store

/-- Setting a value succeeds and leaves the store `s'`. -/
structure SetsTo (st : Storage) (s : Store) (key new : Value) (s' : Store) : Prop where
  store : (st.set s key new).store = s'
  result : (st.set s key new).result = .ok ()

variable {s s' s₁ s₂ s₁₂ s₂₁ : Store} {st : Storage} {new other a b : Value} {key p q : Text}
  {i j : Nat} {path path' : Path}

/-- What a storage is left with when a value has been set under a written key. -/
theorem SetsTo.spec (h : st.SetsTo s (.atom (.text key) i) new s') (hf : s.IsFinite st.root)
    (hs : s.Separate st.root) (hn : s.IsFinite new) (hns : s.Separate new)
    (ha : s.Apart Cell.isContainer new st.root)
    (hk : keyPath s (.atom (.text key) i) = .ok path) :
    s'.IsFinite st.root ∧ s'.Separate st.root ∧
      Data.Puts (s.tree new) path (s.tree st.root) (s'.tree st.root) := by
  obtain ⟨rfl, hr⟩ := h
  have hpath := (keyPath_scalar rfl i).symm.trans hk
  obtain ⟨hf', hs', htree⟩ := @set_spec s st (.text key) new hf hs hn hns ha rfl i
  rw [hr, Data.setAt, hpath] at htree
  obtain ⟨seg, rest, rfl⟩ := List.exists_cons_of_ne_nil (Atom.path_ne_nil hpath)
  have hputs := Data.puts_of_writeFrom (isWritten_of_keyPath hk) (congrArg Prod.snd htree)
  rw [show (Data.writeFrom (seg :: rest) [] (s.tree st.root) (s.tree new) (seg :: rest)).1 = _ from
    congrArg Prod.fst htree] at hputs
  exact ⟨hf', hs', hputs⟩

/-- A value that has no container in common with the tree, nor with what is set in it, has none
afterwards, and holds what it held. -/
theorem SetsTo.beside (h : st.SetsTo s (.atom (.text key) i) new s') (hf : s.IsFinite other)
    (hs : s.Separate other) (ha : s.Apart Cell.isContainer other st.root)
    (hn : s.Apart Cell.isContainer other new) :
    s'.IsFinite other ∧ s'.Separate other ∧ s'.Apart Cell.isContainer other st.root ∧
      s'.tree other = s.tree other := by
  obtain ⟨rfl, -⟩ := h
  have he := st.set_edit s (.atom (.text key) i) new
  have hk := he.keeps hf.closed ha
  exact ⟨hk.isFinite hf, hk.separate hs, he.apart hf.closed (fun _ h => h) ha hn, hk.tree hf⟩

/-- Setting two values that have nothing in common, one under a key whose path diverges from that of
the other, leads to trees that are alike in both orders. -/
theorem set_comm_alike (hf : s.IsFinite st.root) (hs : s.Separate st.root) (hfa : s.IsFinite a)
    (hsa : s.Separate a) (hfb : s.IsFinite b) (hsb : s.Separate b)
    (ha : s.Apart Cell.isContainer a st.root) (hb : s.Apart Cell.isContainer b st.root)
    (hab : s.Apart Cell.isContainer a b)
    (hp : keyPath s (.atom (.text p) i) = .ok path)
    (hq : keyPath s (.atom (.text q) j) = .ok path') (hd : path.Diverges path')
    (h₁ : st.SetsTo s (.atom (.text p) i) a s₁) (h₁₂ : st.SetsTo s₁ (.atom (.text q) j) b s₁₂)
    (h₂ : st.SetsTo s (.atom (.text q) j) b s₂) (h₂₁ : st.SetsTo s₂ (.atom (.text p) i) a s₂₁) :
    s₁₂.IsFinite st.root ∧ s₂₁.IsFinite st.root ∧
      Data.Alike (s₁₂.tree st.root) (s₂₁.tree st.root) := by
  obtain ⟨hf₁, hs₁, hputs₁⟩ := h₁.spec hf hs hfa hsa ha hp
  obtain ⟨hfb₁, hsb₁, hb₁, htreeb⟩ := h₁.beside hfb hsb hb hab.symm
  obtain ⟨hf₁₂, -, hputs₁₂⟩ := h₁₂.spec hf₁ hs₁ hfb₁ hsb₁ hb₁ hq
  obtain ⟨hf₂, hs₂, hputs₂⟩ := h₂.spec hf hs hfb hsb hb hq
  obtain ⟨hfa₂, hsa₂, ha₂, htreea⟩ := h₂.beside hfa hsa ha hab
  obtain ⟨hf₂₁, -, hputs₂₁⟩ := h₂₁.spec hf₂ hs₂ hfa₂ hsa₂ ha₂ hp
  rw [htreeb] at hputs₁₂
  rw [htreea] at hputs₂₁
  exact ⟨hf₁₂, hf₂₁, Data.Puts.comm (isWritten_of_keyPath hp) (isWritten_of_keyPath hq) hd
    (.refl _) hputs₁ hputs₁₂ hputs₂ hputs₂₁⟩

/-- Setting values that have no container in common with each other or with an unshared tree commutes
where the paths of the keys diverge: whatever key is asked for afterwards, the same fault or an alike
value is got in both orders. -/
theorem set_comm (hu : s.Unshared st.root) (hfa : s.IsFinite a) (hsa : s.Separate a)
    (hfb : s.IsFinite b) (hsb : s.Separate b) (ha : s.Apart Cell.isContainer a st.root)
    (hb : s.Apart Cell.isContainer b st.root) (hab : s.Apart Cell.isContainer a b)
    (hp : keyPath s (.atom (.text p) i) = .ok path)
    (hq : keyPath s (.atom (.text q) j) = .ok path') (hd : path.Diverges path')
    (h₁ : st.SetsTo s (.atom (.text p) i) a s₁) (h₁₂ : st.SetsTo s₁ (.atom (.text q) j) b s₁₂)
    (h₂ : st.SetsTo s (.atom (.text q) j) b s₂) (h₂₁ : st.SetsTo s₂ (.atom (.text p) i) a s₂₁)
    (r : Text) (copy : Nat) :
    Agree Data.Alike ((st.get s₁₂ (.atom (.text r) copy)).map s₁₂.tree)
      ((st.get s₂₁ (.atom (.text r) copy)).map s₂₁.tree) := by
  obtain ⟨hf₁₂, hf₂₁, halike⟩ := set_comm_alike hu.isFinite hu.separate hfa hsa hfb hsb ha hb hab hp
    hq hd h₁ h₁₂ h₂ h₂₁
  rw [get_spec hf₁₂ rfl, get_spec hf₂₁ rfl]
  cases hpath : Atom.path (.text r) with
  | error fault => exact .error fault
  | ok path => exact Data.readFrom_alike halike (Atom.isWritten_of_path hpath) path []

/-- A name and a position are set below something that is not there: a list that has become a mapping
in the one order, a mapping from the start in the other, with the same item under `2`. -/
theorem set_comm_below_missing :
    ∃ (s s₁ s₁₂ s₂ s₂₁ : Store) (st : Storage), s.tree st.root = .empty ∧
      st.SetsTo s (.text "x[2]") (.ofAtom (.int 1)) s₁ ∧
      st.SetsTo s₁ (.text "x.name") (.ofAtom (.int 5)) s₁₂ ∧
      st.SetsTo s (.text "x.name") (.ofAtom (.int 5)) s₂ ∧
      st.SetsTo s₂ (.text "x[2]") (.ofAtom (.int 1)) s₂₁ ∧
      s₁₂.tree st.root = .mapping .plain [(.text "x", .mapping .plain
        [(.text "0", .leaf .none), (.text "1", .leaf .none), (.text "2", .leaf (.int 1)),
          (.text "name", .leaf (.int 5))])] ∧
      s₂₁.tree st.root = .mapping .plain [(.text "x", .mapping .plain
        [(.text "name", .leaf (.int 5)), (.text "2", .leaf (.int 1))])] ∧
      ∀ r, Agree Data.Alike ((st.get s₁₂ (.text r)).map s₁₂.tree)
        ((st.get s₂₁ (.text r)).map s₂₁.tree) := by
  have hu : (Store.empty.load .empty).1.Unshared (.ref ⟨0⟩) := by decide +kernel
  have hd : Path.Diverges [.key "x", .index 2] [.key "x", .key "name"] :=
    ⟨1, .index 2, .key "name", rfl, rfl, by decide⟩
  have h₁ : SetsTo ⟨.ref ⟨0⟩, 0⟩ (Store.empty.load .empty).1 (.text "x[2]") (.ofAtom (.int 1)) _ :=
    ⟨rfl, by cbv⟩
  have h₁₂ : SetsTo ⟨.ref ⟨0⟩, 0⟩ (set ⟨.ref ⟨0⟩, 0⟩ (Store.empty.load .empty).1 (.text "x[2]")
      (.ofAtom (.int 1))).store (.text "x.name") (.ofAtom (.int 5)) _ := ⟨rfl, by cbv⟩
  have h₂ : SetsTo ⟨.ref ⟨0⟩, 0⟩ (Store.empty.load .empty).1 (.text "x.name") (.ofAtom (.int 5)) _ :=
    ⟨rfl, by cbv⟩
  have h₂₁ : SetsTo ⟨.ref ⟨0⟩, 0⟩ (set ⟨.ref ⟨0⟩, 0⟩ (Store.empty.load .empty).1 (.text "x.name")
      (.ofAtom (.int 5))).store (.text "x[2]") (.ofAtom (.int 1)) _ := ⟨rfl, by cbv⟩
  exact ⟨_, _, _, _, _, ⟨.ref ⟨0⟩, 0⟩, by cbv, h₁, h₁₂, h₂, h₂₁, by cbv, by cbv, fun r =>
    set_comm hu (.atom _ _) (separate_atom _ _ _) (.atom _ _) (separate_atom _ _ _)
      (apart_atom _ _ _ _ _) (apart_atom _ _ _ _ _) (apart_atom _ _ _ _ _) (by cbv) (by cbv) hd
      h₁ h₁₂ h₂ h₂₁ r 0⟩

end Storage

end PathStore
