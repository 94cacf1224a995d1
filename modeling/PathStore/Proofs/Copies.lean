import Mathlib.Data.List.Forall2
import PathStore.Proofs.Plain
import PathStore.Proofs.Sharing
import PathStore.Store.Clone

/-!
# Copies

A copy holds what the original holds, except that mappings outside of tuples have become plain
(`Data.plain`), and every cell that can change and is reached from it is new (`IsCopy`).  Whatever
`duplicate` and `cloneTo` give is such a copy (`duplicate_spec`, `cloneTo_spec`), of an original that
is finite, and in a copy made by `cloneTo` nothing is shared between different slots.  Finite data
always have a copy (`clone_isOk`).
-/

namespace PathStore

/-! ## Definitions -/

namespace Store

/-- Every cell that can change and that the value reaches has an index from `b` on. -/
def FreshFrom (s : Store) (b : Nat) (w : Value) : Prop :=
  ∀ r c, s.get? r = some c → c.isMutable = true → s.Reaches w (.ref r) → b ≤ r.index

/-- A finite value with the contents `t` whose cells that can change are all new. -/
structure IsCopy (s : Store) (b : Nat) (t : Data) (w : Value) : Prop where
  isFinite : s.IsFinite w
  tree : s.tree w = t
  fresh : s.FreshFrom b w

/-! ## Copies in a growing store -/

variable {s s' s'' : Store} {v w x y : Value} {r : Ref} {cell : Cell} {t : Data} {b b' : Nat}

theorem FreshFrom.keeps (h : s.FreshFrom b w) (hk : Keeps s s' w) (hb : b' ≤ b) :
    s'.FreshFrom b' w := by
  intro r c hc hm hr
  rw [hk.reaches_iff] at hr
  rw [hk r hr] at hc
  exact hb.trans (h r c hc hm hr)

theorem IsCopy.grows (h : s.IsCopy b t w) (hg : Grows s s') (hb : b' ≤ b) : s'.IsCopy b' t w := by
  have hk : Keeps s s' w := hg.keeps h.isFinite.closed
  exact ⟨hk.isFinite h.isFinite, by rw [hk.tree h.isFinite, h.tree], h.fresh.keeps hk hb⟩

/-- A value has nothing that can change in common with one that reaches only what was added after
it. -/
theorem apart_mutable_of_fresh (hg : Grows s s') (hf : s.IsFinite v)
    (hw : s'.FreshFrom s.size w) : s'.Apart Cell.isMutable v w := by
  intro r c hc hm hr hr'
  have hlt : r.index < s.size := by
    rw [(hg.keeps hf.closed).reaches_iff] at hr
    exact hf.closed r hr
  have hle : s.size ≤ r.index := hw r c hc hm hr'
  omega

theorem apart_of_fresh (hg : Grows s s') (hf : s.IsFinite v) (hw : s'.FreshFrom s.size w) :
    s'.Apart Cell.isContainer v w :=
  (apart_mutable_of_fresh hg hf hw).of_imp fun _ => Cell.isMutable_of_isContainer

theorem isCopy_atom (s : Store) (b : Nat) (a : Atom) (copy : Nat) :
    s.IsCopy b (.leaf a) (.atom a copy) := by
  refine ⟨.atom a copy, rfl, fun r c _ _ hr => ?_⟩
  cases hr.eq_of_atom

/-- A cell of copies is a copy if it is new or cannot change. -/
theorem isCopy_ref (hc : s.get? r = some cell) (hm : cell.isMutable = true → b ≤ r.index)
    (hv : ∀ w ∈ cell.values, ∃ t, s.IsCopy b t w) (ht : cell.contents s.tree = t) :
    s.IsCopy b t (.ref r) := by
  have hf : s.IsFinite (.ref r) := .ref hc fun w hw => by
    obtain ⟨t, h⟩ := hv w hw
    exact h.isFinite
  refine ⟨hf, by rw [tree_ref hf hc, ht], fun r' c' hc' hm' hr' => ?_⟩
  rcases (reaches_ref_iff hc).1 hr' with heq | ⟨w, hw, hwr⟩
  · cases heq
    rw [hc] at hc'
    cases hc'
    exact hm hm'
  · obtain ⟨t, h⟩ := hv w hw
    exact h.fresh r' c' hc' hm' hwr

/-- A further cell of copies is a copy. -/
theorem isCopy_alloc (hb : b ≤ s.size) (hv : ∀ w ∈ cell.values, ∃ t, s.IsCopy b t w)
    (ht : cell.contents s.tree = t) : (s.alloc cell).1.IsCopy b t (s.alloc cell).2 := by
  have hf : ∀ w ∈ cell.values, s.IsFinite w := fun w hw => by
    obtain ⟨t, h⟩ := hv w hw
    exact h.isFinite
  have htree : cell.contents (s.alloc cell).1.tree = t :=
    (tree_ref (isFinite_alloc hf) (get?_alloc_self s cell)).symm.trans ((tree_alloc hf).trans ht)
  refine isCopy_ref (get?_alloc_self s cell) (fun _ => hb) (fun w hw => ?_) htree
  obtain ⟨t, h⟩ := hv w hw
  exact ⟨t, h.grows (grows_alloc s cell) (Nat.le_refl b)⟩

/-! ## Carrying a store through a list -/

section
variable {α β γ : Type} {R : α → β → Prop} {xs : List α} {ys : List β}

theorem exists_of_mem_left (h : List.Forall₂ R xs ys) {x : α} (hx : x ∈ xs) : ∃ y ∈ ys, R x y := by
  induction h with
  | nil => cases hx
  | @cons a b xs ys hab _ ih =>
    rcases List.mem_cons.1 hx with rfl | hx
    · exact ⟨b, List.mem_cons_self, hab⟩
    · obtain ⟨y, hy, hxy⟩ := ih hx
      exact ⟨y, List.mem_cons_of_mem _ hy, hxy⟩

theorem exists_of_mem_right (h : List.Forall₂ R xs ys) {y : β} (hy : y ∈ ys) : ∃ x ∈ xs, R x y :=
  exists_of_mem_left (R := flip R) h.flip hy

theorem map_eq_map_of_forall₂ {f : α → γ} {g : β → γ}
    (h : List.Forall₂ (fun x y => g y = f x) xs ys) : ys.map g = xs.map f := by
  induction h with
  | nil => rfl
  | cons hab _ ih => rw [List.map_cons, List.map_cons, hab, ih]

end

section
variable {σ α β : Type} {f : σ → α → Except Fault (σ × β)} {c c' : σ} {xs : List α} {ys : List β}

/-- What each step makes between two stores holds between the first and the last store, and what
is made by an earlier and a later step is related. -/
theorem thread_spec (store : σ → Store) (I : σ → Prop) (Q : Store → Store → α → β → Prop)
    (P : Store → β → β → Prop)
    (widen : ∀ {s₀ s s' s'' x y}, Grows s₀ s → Grows s' s'' → Q s s' x y → Q s₀ s'' x y)
    (pair : ∀ {s s' s'' x y x' y'}, Grows s' s'' → Q s s' x y → Q s' s'' x' y' → P s'' y y')
    (step : ∀ x ∈ xs, ∀ c c' y, I c → f c x = .ok (c', y) →
      I c' ∧ Grows (store c) (store c') ∧ Q (store c) (store c') x y)
    (hc : I c) (h : thread f c xs = .ok (c', ys)) :
    I c' ∧ Grows (store c) (store c') ∧ List.Forall₂ (Q (store c) (store c')) xs ys ∧
      ys.Pairwise (P (store c')) := by
  induction xs generalizing c ys with
  | nil =>
    cases h
    exact ⟨hc, Grows.refl _, .nil, .nil⟩
  | cons x xs ih =>
    rw [thread] at h
    obtain ⟨⟨c₁, y⟩, hx, h⟩ := bind_eq_ok.1 h
    obtain ⟨⟨c₂, ys'⟩, hxs, h⟩ := bind_eq_ok.1 h
    cases h
    obtain ⟨hc₁, hg, hq⟩ := step x List.mem_cons_self c c₁ y hc hx
    obtain ⟨hc₂, hg', hqs, hps⟩ := ih (fun x hx => step x (List.mem_cons_of_mem _ hx)) hc₁ hxs
    refine ⟨hc₂, hg.trans hg', .cons (widen (Grows.refl _) hg' hq) ?_, .cons ?_ hps⟩
    · exact hqs.imp fun _ _ h => widen hg (Grows.refl _) h
    · intro y' hy'
      obtain ⟨x', -, hq'⟩ := exists_of_mem_right hqs hy'
      exact pair hg' hq hq'

theorem thread_isOk (I : σ → Prop)
    (step : ∀ x ∈ xs, ∀ c, I c → ∃ c' y, f c x = .ok (c', y) ∧ I c') (hc : I c) :
    ∃ c' ys, thread f c xs = .ok (c', ys) := by
  induction xs generalizing c with
  | nil => exact ⟨c, [], rfl⟩
  | cons x xs ih =>
    obtain ⟨c₁, y, hx, hc₁⟩ := step x List.mem_cons_self c hc
    obtain ⟨c₂, ys, hxs⟩ := ih (fun x hx => step x (List.mem_cons_of_mem _ hx)) hc₁
    exact ⟨c₂, y :: ys, bind_eq_ok.2 ⟨_, hx, bind_eq_ok.2 ⟨_, hxs, rfl⟩⟩⟩

end

/-! ## Copies that keep sharing -/

/-- While finite values of `s₀` are copied: the store has grown, and what is noted as copied has
been. -/
structure Copying.Sound (s₀ : Store) (c : Copying) : Prop where
  grows : Grows s₀ c.store
  copies : ∀ v w, (v, w) ∈ c.copies →
    (∃ r, v = .ref r) ∧ s₀.IsFinite v ∧ c.store.IsCopy s₀.size (s₀.tree v) w

namespace Copying

variable {s₀ : Store} {c c' : Copying} {f : Copier} {a : Atom} {k : MapKey} {ks : List MapKey}

theorem start_sound (s : Store) : (start s).Sound s :=
  ⟨Grows.refl s, fun _ _ h => by cases h⟩

theorem mem_of_find? (h : c.find? v = some w) : (v, w) ∈ c.copies := by
  obtain ⟨l₁, l₂, h, -⟩ := List.lookup_eq_some_iff.1 h
  rw [h]
  exact List.mem_append_right _ List.mem_cons_self

theorem Sound.find?_atom (hc : c.Sound s₀) (a : Atom) (copy : Nat) :
    c.find? (.atom a copy) = none := by
  cases h : c.find? (.atom a copy) with
  | none => rfl
  | some w =>
    obtain ⟨⟨r, hr⟩, -⟩ := hc.copies _ w (mem_of_find? h)
    cases hr

theorem copyAtom_of_isScalar (h : isScalar a = true) (f : Copier) (c : Copying) (copy : Nat) :
    c.copyAtom f copy a = .ok (c, .atom a copy) := by
  cases a with
  | object kind number => cases h
  | _ => rfl

/-- A further cell of copies, noted as the copy of a cell of finite values. -/
theorem Sound.add (hc : c.Sound s₀) (hcell : s₀.get? r = some cell) (cell' : Cell)
    (hs : Grows s c.store) (hf : ∀ v ∈ cell.values, s₀.IsFinite v)
    (hv : ∀ w ∈ cell'.values, ∃ t, c.store.IsCopy s₀.size t w)
    (ht : cell'.contents c.store.tree = cell.contents s₀.tree) :
    (c.add (.ref r) cell').1.Sound s₀ ∧ Grows s (c.add (.ref r) cell').1.store ∧
      s₀.IsFinite (.ref r) ∧
      (c.add (.ref r) cell').1.store.IsCopy s₀.size (s₀.tree (.ref r)) (c.add (.ref r) cell').2 := by
  have hg : Grows c.store (c.store.alloc cell').1 := grows_alloc c.store cell'
  have hfr : s₀.IsFinite (.ref r) := .ref hcell hf
  rw [← tree_ref hfr hcell] at ht
  have hcopy := isCopy_alloc hc.grows.size_le hv ht
  refine ⟨⟨hc.grows.trans hg, fun v w hm => ?_⟩, hs.trans hg, hfr, hcopy⟩
  rcases List.mem_cons.1 hm with heq | hm
  · cases heq
    exact ⟨⟨r, rfl⟩, hfr, hcopy⟩
  · obtain ⟨hr, hfv, hw⟩ := hc.copies v w hm
    exact ⟨hr, hfv, hw.grows hg (Nat.le_refl _)⟩

mutual

/-- A key without objects is its own copy. -/
theorem copyKey_eq_ok (hf : ∀ a p, isScalar a = true → f c (.ofAtom a) = .ok p → p = (c, .ofAtom a))
    {k : MapKey} (hk : k.allAtoms isScalar = true) {p : Copying × MapKey}
    (h : c.copyKey f k = .ok p) : p = (c, k) := by
  cases k with
  | atom a =>
    rw [copyKey] at h
    obtain ⟨q, hq, h⟩ := bind_eq_ok.1 h
    obtain rfl := hf a q hk hq
    cases h
    rfl
  | tuple ks =>
    rw [copyKey] at h
    obtain ⟨q, hq, h⟩ := bind_eq_ok.1 h
    obtain rfl := copyKeys_eq_ok hf hk hq
    cases h
    rfl

theorem copyKeys_eq_ok
    (hf : ∀ a p, isScalar a = true → f c (.ofAtom a) = .ok p → p = (c, .ofAtom a))
    {ks : List MapKey} (hk : MapKey.allAtomsOf isScalar ks = true) {p : Copying × List MapKey}
    (h : c.copyKeys f ks = .ok p) : p = (c, ks) := by
  cases ks with
  | nil =>
    cases h
    rfl
  | cons k ks =>
    obtain ⟨hk, hks⟩ := Bool.and_eq_true_iff.1 hk
    rw [copyKeys] at h
    obtain ⟨q, hq, h⟩ := bind_eq_ok.1 h
    obtain rfl := copyKey_eq_ok hf hk hq
    obtain ⟨q, hq, h⟩ := bind_eq_ok.1 h
    obtain rfl := copyKeys_eq_ok hf hks hq
    cases h
    rfl

end

/-- What `f` gives for `v` is a copy of it, and `v` is finite. -/
def Copies (s₀ : Store) (f : Copier) (v : Value) : Prop :=
  ∀ c c' w, c.Sound s₀ → f c v = .ok (c', w) →
    c'.Sound s₀ ∧ Grows c.store c'.store ∧ s₀.IsFinite v ∧
      c'.store.IsCopy s₀.size (s₀.tree v) w

theorem thread_copies {xs ys : List Value} (hf : ∀ x ∈ xs, Copies s₀ f x) (hc : c.Sound s₀)
    (h : thread f c xs = .ok (c', ys)) :
    c'.Sound s₀ ∧ Grows c.store c'.store ∧ (∀ x ∈ xs, s₀.IsFinite x) ∧
      (∀ y ∈ ys, ∃ t, c'.store.IsCopy s₀.size t y) ∧
      ys.map c'.store.tree = xs.map s₀.tree := by
  have hspec := thread_spec Copying.store (Copying.Sound s₀)
    (fun _ s' x y => s₀.IsFinite x ∧ s'.IsCopy s₀.size (s₀.tree x) y) (fun _ _ _ => True)
    (fun _ hg h => ⟨h.1, h.2.grows hg (Nat.le_refl _)⟩) (fun _ _ _ => trivial)
    (fun x hx c c' y hc h => hf x hx c c' y hc h) hc h
  obtain ⟨hc', hg, hall, -⟩ := hspec
  have hfin : ∀ x ∈ xs, s₀.IsFinite x := fun x hx => by
    obtain ⟨y, -, hxy⟩ := exists_of_mem_left hall hx
    exact hxy.1
  have hcopy : ∀ y ∈ ys, ∃ t, c'.store.IsCopy s₀.size t y := fun y hy => by
    obtain ⟨x, -, hxy⟩ := exists_of_mem_right hall hy
    exact ⟨_, hxy.2⟩
  exact ⟨hc', hg, hfin, hcopy, map_eq_map_of_forall₂ (hall.imp fun _ _ h => h.2.tree)⟩

theorem copyEntries_copies {es es' : Entries Value}
    (hatom : ∀ c, c.Sound s₀ → ∀ a p, isScalar a = true → f c (.ofAtom a) = .ok p →
      p = (c, .ofAtom a))
    (hk : ∀ e ∈ es, e.1.allAtoms isScalar = true) (hf : ∀ e ∈ es, Copies s₀ f e.2)
    (hc : c.Sound s₀) (h : c.copyEntries f es = .ok (c', es')) :
    c'.Sound s₀ ∧ Grows c.store c'.store ∧ (∀ x ∈ es.map Prod.snd, s₀.IsFinite x) ∧
      (∀ y ∈ es'.map Prod.snd, ∃ t, c'.store.IsCopy s₀.size t y) ∧
      es'.map (fun e => (e.1, c'.store.tree e.2)) = es.map fun e => (e.1, s₀.tree e.2) := by
  have hspec := thread_spec Copying.store (Copying.Sound s₀)
    (fun _ s' e e' => e'.1 = e.1 ∧ s₀.IsFinite e.2 ∧ s'.IsCopy s₀.size (s₀.tree e.2) e'.2)
    (fun _ _ _ => True)
    (fun _ hg h => by exact ⟨h.1, h.2.1, h.2.2.grows hg (Nat.le_refl _)⟩) (fun _ _ _ => trivial)
    (fun e he c c' e' hc h => by
      obtain ⟨p, hp, h⟩ := bind_eq_ok.1 h
      obtain rfl := copyKey_eq_ok (hatom c hc) (hk e he) hp
      obtain ⟨⟨c₁, v⟩, hv, h⟩ := bind_eq_ok.1 h
      cases h
      obtain ⟨hs, hg, hfin, hcopy⟩ := hf e he c c' v hc hv
      exact ⟨hs, hg, rfl, hfin, hcopy⟩) hc h
  obtain ⟨hc', hg, hall, -⟩ := hspec
  have hfin : ∀ x ∈ es.map Prod.snd, s₀.IsFinite x := by
    refine List.forall_mem_map.2 fun e he => ?_
    obtain ⟨e', -, h⟩ := exists_of_mem_left hall he
    exact h.2.1
  have hcopy : ∀ y ∈ es'.map Prod.snd, ∃ t, c'.store.IsCopy s₀.size t y := by
    refine List.forall_mem_map.2 fun e' he' => ?_
    obtain ⟨e, -, h⟩ := exists_of_mem_right hall he'
    exact ⟨_, h.2.2⟩
  exact ⟨hc', hg, hfin, hcopy,
    map_eq_map_of_forall₂ (hall.imp fun _ _ h => Prod.ext h.1 h.2.2.tree)⟩

end Copying

theorem duplicate_atom {s₀ : Store} {c : Copying} (hc : c.Sound s₀) {a : Atom}
    (ha : isScalar a = true) (depth copy : Nat) :
    duplicate (depth + 1) c (.atom a copy) = .ok (c, .atom a copy) := by
  rw [duplicate, hc.find?_atom]
  exact Copying.copyAtom_of_isScalar ha _ c copy

theorem duplicate_atom_eq {s₀ : Store} {c : Copying} (hc : c.Sound s₀) {a : Atom}
    (ha : isScalar a = true) {depth copy : Nat} {p : Copying × Value}
    (h : duplicate depth c (.atom a copy) = .ok p) : p = (c, .atom a copy) := by
  cases depth with
  | zero => cases h
  | succ depth =>
    rw [duplicate_atom hc ha] at h
    cases h
    rfl

/-- What `duplicate` gives for data is a copy. -/
theorem duplicate_spec {s₀ : Store} (depth : Nat) (hd : s₀.IsData v) :
    Copying.Copies s₀ (duplicate depth) v := by
  induction depth generalizing v with
  | zero =>
    intro c c' w _ h
    cases h
  | succ depth ih =>
    intro c c' w hc h
    cases v with
    | atom a copy =>
      obtain ⟨rfl, rfl⟩ := Prod.mk.inj (duplicate_atom_eq hc (hd _ (Reaches.refl _ _)) h)
      exact ⟨hc, Grows.refl _, .atom a copy, isCopy_atom _ _ a copy⟩
    | ref r =>
      rw [duplicate] at h
      cases hfind : c.find? (.ref r) with
      | some w' =>
        simp only [hfind, Except.ok.injEq, Prod.mk.injEq] at h
        obtain ⟨rfl, rfl⟩ := h
        obtain ⟨-, hf, hw⟩ := hc.copies _ _ (Copying.mem_of_find? hfind)
        exact ⟨hc, Grows.refl _, hf, hw⟩
      | none =>
        obtain ⟨cell, hcell, -⟩ := hd _ (Reaches.refl _ _)
        obtain ⟨hkeys, hvals⟩ := (isData_ref_iff hcell).1 hd
        simp only [hfind, hc.grows r cell hcell] at h
        cases cell with
        | mapping kind es =>
          obtain ⟨⟨c₁, es'⟩, hes, h⟩ := bind_eq_ok.1 h
          cases h
          obtain ⟨hc₁, hg, hfin, hcopy, htree⟩ := Copying.copyEntries_copies
            (fun c hc a p ha h => duplicate_atom_eq hc ha h)
            (fun e he => hkeys e.1 (List.mem_map_of_mem he))
            (fun e he => ih (hvals e.2 (List.mem_map_of_mem he))) hc hes
          exact hc₁.add hcell (.mapping kind es') hg hfin hcopy
            (congrArg (Data.mapping kind) htree)
        | list xs =>
          obtain ⟨⟨c₁, ys⟩, hxs, h⟩ := bind_eq_ok.1 h
          cases h
          obtain ⟨hc₁, hg, hfin, hcopy, htree⟩ :=
            Copying.thread_copies (fun x hx => ih (hvals x hx)) hc hxs
          exact hc₁.add hcell (.list ys) hg hfin hcopy (congrArg Data.list htree)
        | tuple xs =>
          obtain ⟨⟨c₁, ys⟩, hxs, h⟩ := bind_eq_ok.1 h
          obtain ⟨hc₁, hg, hfin, hcopy, htree⟩ :=
            Copying.thread_copies (fun x hx => ih (hvals x hx)) hc hxs
          by_cases hsame : ys = xs
          · -- nothing had to be copied, so the old tuple reaches nothing that can change
            simp only [hsame, if_true] at h
            cases h
            subst hsame
            have hf : s₀.IsFinite (.ref r) := .ref hcell hfin
            refine ⟨hc₁, hg, hf, ?_⟩
            rw [tree_ref hf hcell]
            exact isCopy_ref (hc₁.grows r _ hcell) (fun h => by cases h) hcopy
              (congrArg Data.tuple htree)
          · simp only [hsame, if_false] at h
            cases h
            exact hc₁.add hcell (.tuple ys) hg hfin hcopy (congrArg Data.tuple htree)
        | set ks =>
          obtain ⟨⟨c₁, ks'⟩, hks, h⟩ := bind_eq_ok.1 h
          have hsame := Copying.copyKeys_eq_ok
            (fun a p ha h => duplicate_atom_eq hc ha h) (allAtomsOfKeys_iff.2 hkeys) hks
          cases hsame
          cases h
          exact hc.add hcell (.set ks) (Grows.refl _) (fun w hw => by cases hw)
            (fun w hw => by cases hw) rfl

/-! ## Copies for snapshots -/

/-- Between `s` and `s'` the finite value `x` of `s₀` was copied for a snapshot. -/
structure Cloned (s₀ s s' : Store) (x y : Value) : Prop where
  isFinite : s₀.IsFinite x
  isCopy : s'.IsCopy s.size (s₀.tree x).plain y
  separate : s'.Separate y

section
variable {s₀ s₁ : Store} {f : Store → Value → Except Fault (Store × Value)}

theorem Cloned.widen (hg : Grows s₁ s) (hg' : Grows s' s'') (h : Cloned s₀ s s' x y) :
    Cloned s₀ s₁ s'' x y :=
  ⟨h.isFinite, h.isCopy.grows hg' hg.size_le,
    (hg'.keeps h.isCopy.isFinite.closed).separate h.separate⟩

/-- Values copied one after the other have no container in common. -/
theorem Cloned.apart {x' y' : Value} (hg : Grows s' s'') (h : Cloned s₀ s s' x y)
    (h' : Cloned s₀ s' s'' x' y') : s''.Apart Cell.isContainer y y' :=
  apart_of_fresh hg h.isCopy.isFinite h'.isCopy.fresh

theorem Cloned.of_keeps (hk : Keeps s₀ s x) (h : Cloned s s s' x y) : Cloned s₀ s s' x y := by
  have hf : s₀.IsFinite x := hk.symm.isFinite h.isFinite
  exact ⟨hf, by rw [← hk.tree hf]; exact h.isCopy, h.separate⟩

/-- `f` copies `x` for a snapshot in all stores that have grown from `s₀`. -/
def Clones (s₀ : Store) (f : Store → Value → Except Fault (Store × Value)) (x : Value) : Prop :=
  ∀ s s' y, Grows s₀ s → f s x = .ok (s', y) → Grows s s' ∧ Cloned s₀ s s' x y

theorem thread_cloned {xs ys : List Value} (hf : ∀ x ∈ xs, Clones s f x)
    (h : thread f s xs = .ok (s', ys)) :
    Grows s s' ∧ List.Forall₂ (Cloned s s s') xs ys ∧
      ys.Pairwise (s'.Apart Cell.isContainer) := by
  have hspec := thread_spec id (Grows s) (Cloned s) (fun s' => s'.Apart Cell.isContainer)
    Cloned.widen Cloned.apart
    (fun x hx c c' y hc h => by
      obtain ⟨hg, hy⟩ := hf x hx c c' y hc h
      exact ⟨hc.trans hg, hg, hy⟩) (Grows.refl s) h
  exact hspec.2

theorem threadPairs_cloned {es es' : Entries Value} (hf : ∀ e ∈ es, Clones s f e.2)
    (h : threadPairs f s es = .ok (s', es')) :
    Grows s s' ∧ List.Forall₂ (fun e e' => e'.1 = e.1 ∧ Cloned s s s' e.2 e'.2) es es' ∧
      es'.Pairwise fun e e' => s'.Apart Cell.isContainer e.2 e'.2 := by
  have hspec := thread_spec id (Grows s) (fun s₁ s' e e' => e'.1 = e.1 ∧ Cloned s s₁ s' e.2 e'.2)
    (fun s' e e' => s'.Apart Cell.isContainer e.2 e'.2)
    (fun hg hg' h => by exact ⟨h.1, h.2.widen hg hg'⟩) (fun hg h h' => by exact h.2.apart hg h'.2)
    (fun e he c c' e' hc h => by
      obtain ⟨⟨c₁, v⟩, hv, h⟩ := bind_eq_ok.1 h
      cases h
      obtain ⟨hg, hy⟩ := hf e he c c' v hc hv
      exact ⟨hc.trans hg, hg, rfl, hy⟩) (Grows.refl s) h
  exact hspec.2

/-- A further container of copies that have nothing in common is a copy for a snapshot. -/
theorem cloned_alloc {cell' : Cell} (hcell : s.get? r = some cell) (hk : cell'.isContainer = true)
    (hg : Grows s s') (hf : ∀ v ∈ cell.values, s.IsFinite v)
    (hv : ∀ w ∈ cell'.values, ∃ x, Cloned s s s' x w)
    (hp : cell'.values.Pairwise (s'.Apart Cell.isContainer))
    (ht : cell'.contents s'.tree = (cell.contents s.tree).plain) :
    Grows s (s'.alloc cell').1 ∧ Cloned s s (s'.alloc cell').1 (.ref r) (s'.alloc cell').2 := by
  have hg' : Grows s' (s'.alloc cell').1 := grows_alloc s' cell'
  have hfr : s.IsFinite (.ref r) := .ref hcell hf
  rw [← tree_ref hfr hcell] at ht
  refine ⟨hg.trans hg', hfr, isCopy_alloc hg.size_le (fun w hw => ?_) ht, ?_⟩
  · obtain ⟨x, h⟩ := hv w hw
    exact ⟨_, h.isCopy⟩
  · refine separate_alloc hk (fun w hw => ?_) (fun w hw => ?_) hp
    · obtain ⟨x, h⟩ := hv w hw
      exact h.isCopy.isFinite
    · obtain ⟨x, h⟩ := hv w hw
      exact h.separate

end

/-- What is no container is copied as a whole. -/
theorem duplicate_cloned {depth : Nat} {c' : Copying} (hd : s.IsData v)
    (hk : s.isContainer v = false) (h : duplicate depth (.start s) v = .ok (c', w)) :
    Grows s c'.store ∧ Cloned s s c'.store v w := by
  obtain ⟨-, hg, hf, hcopy⟩ := duplicate_spec depth hd _ _ _ (Copying.start_sound s) h
  have hplain : (s.tree v).plain = s.tree v :=
    Data.plain_of_not_isContainer (by rw [tree_isContainer hf, hk])
  refine ⟨hg, hf, by rw [hplain]; exact hcopy, .leaf ?_⟩
  rw [← tree_isContainer hcopy.isFinite, hcopy.tree, tree_isContainer hf, hk]

/-- What `cloneTo` gives for data is a copy with plain mappings in which different slots have
nothing in common. -/
theorem cloneTo_spec (depth : Nat) (hd : s.IsData v) (h : cloneTo depth s v = .ok (s', w)) :
    Grows s s' ∧ Cloned s s s' v w := by
  induction depth generalizing s v s' w with
  | zero => cases h
  | succ depth ih =>
    have hclones : ∀ x, s.IsData x → Clones s (cloneTo depth) x := fun x hx s₁ s' y hg h => by
      have hk : Keeps s s₁ x := hg.keeps hx.closed
      obtain ⟨hg', hy⟩ := ih (hk.isData hx) h
      exact ⟨hg', hy.of_keeps hk⟩
    rw [cloneTo] at h
    split at h
    · next kind es hc =>
      cases v with
      | atom a copy => cases hc
      | ref r =>
        obtain ⟨-, hvals⟩ := (isData_ref_iff hc).1 hd
        obtain ⟨⟨s₁, es'⟩, hes, h⟩ := bind_eq_ok.1 h
        cases h
        obtain ⟨hg, hall, hpair⟩ := threadPairs_cloned
          (fun e he => hclones e.2 (hvals _ (List.mem_map_of_mem he))) hes
        refine cloned_alloc hc rfl hg (List.forall_mem_map.2 fun e he => ?_)
          (List.forall_mem_map.2 fun e' he' => ?_) (List.pairwise_map.2 hpair) ?_
        · obtain ⟨e', -, -, h⟩ := exists_of_mem_left hall he
          exact h.isFinite
        · obtain ⟨e, -, -, h⟩ := exists_of_mem_right hall he'
          exact ⟨_, h⟩
        · simp only [Cell.contents, Data.plain, Data.plainEntries_eq_map, List.map_map]
          refine congrArg (Data.mapping .plain) (map_eq_map_of_forall₂ ?_)
          exact hall.imp fun e e' h => Prod.ext h.1 h.2.isCopy.tree
    · next xs hc =>
      cases v with
      | atom a copy => cases hc
      | ref r =>
        obtain ⟨-, hvals⟩ := (isData_ref_iff hc).1 hd
        obtain ⟨⟨s₁, ys⟩, hxs, h⟩ := bind_eq_ok.1 h
        cases h
        obtain ⟨hg, hall, hpair⟩ := thread_cloned (fun x hx => hclones x (hvals x hx)) hxs
        refine cloned_alloc hc rfl hg (fun x hx => ?_) (fun y hy => ?_) hpair ?_
        · obtain ⟨y, -, h⟩ := exists_of_mem_left hall hx
          exact h.isFinite
        · obtain ⟨x, -, h⟩ := exists_of_mem_right hall hy
          exact ⟨_, h⟩
        · simp only [Cell.contents, Data.plain, Data.plainAll_eq_map, List.map_map]
          exact congrArg Data.list (map_eq_map_of_forall₂ (hall.imp fun x y h => h.isCopy.tree))
    · next hmap hlist =>
      obtain ⟨⟨c, w'⟩, hdup, h⟩ := bind_eq_ok.1 h
      cases h
      refine duplicate_cloned hd ?_ hdup
      unfold Store.isContainer
      cases hc : s.cell? v with
      | none => rfl
      | some cell =>
        cases cell with
        | mapping kind es => exact absurd hc (hmap kind es)
        | list xs => exact absurd hc (hlist xs)
        | tuple xs => rfl
        | set ks => rfl

/-! ## Finite data have copies -/

theorem endsWithin_ref {d : Nat} (h : s.endsWithin d (.ref r) = true) (hc : s.get? r = some cell) :
    ∃ e, d = e + 1 ∧ ∀ w ∈ cell.values, s.endsWithin e w = true := by
  cases d with
  | zero => cases h
  | succ e =>
    simp only [Store.endsWithin, hc, List.all_eq_true] at h
    exact ⟨e, rfl, h⟩

namespace Copying

variable {s₀ : Store} {c : Copying} {f : Copier}

mutual

theorem copyKey_isOk (hf : ∀ a, isScalar a = true → f c (.ofAtom a) = .ok (c, .ofAtom a))
    {k : MapKey} (hk : k.allAtoms isScalar = true) : c.copyKey f k = .ok (c, k) := by
  cases k with
  | atom a =>
    rw [copyKey, hf a hk]
    rfl
  | tuple ks =>
    rw [copyKey, copyKeys_isOk hf hk]
    rfl

theorem copyKeys_isOk (hf : ∀ a, isScalar a = true → f c (.ofAtom a) = .ok (c, .ofAtom a))
    {ks : List MapKey} (hk : MapKey.allAtomsOf isScalar ks = true) :
    c.copyKeys f ks = .ok (c, ks) := by
  cases ks with
  | nil => rfl
  | cons k ks =>
    obtain ⟨hk, hks⟩ := Bool.and_eq_true_iff.1 hk
    exact bind_eq_ok.2 ⟨_, copyKey_isOk hf hk, bind_eq_ok.2 ⟨_, copyKeys_isOk hf hks, rfl⟩⟩

end

theorem copyEntries_isOk {es : Entries Value}
    (hatom : ∀ c : Copying, c.Sound s₀ → ∀ a, isScalar a = true →
      f c (.ofAtom a) = .ok (c, .ofAtom a))
    (hk : ∀ e ∈ es, e.1.allAtoms isScalar = true)
    (hf : ∀ e ∈ es, ∀ c : Copying, c.Sound s₀ → ∃ c' y, f c e.2 = .ok (c', y) ∧ c'.Sound s₀)
    (hc : c.Sound s₀) : ∃ c' es', c.copyEntries f es = .ok (c', es') := by
  refine thread_isOk (Copying.Sound s₀) (fun e he c hc => ?_) hc
  obtain ⟨c', y, hy, hc'⟩ := hf e he c hc
  have hkey := copyKey_isOk (hatom c hc) (hk e he)
  exact ⟨c', (e.1, y), bind_eq_ok.2 ⟨_, hkey, bind_eq_ok.2 ⟨_, hy, rfl⟩⟩, hc'⟩

end Copying

theorem threadPairs_isOk {f : Store → Value → Except Fault (Store × Value)} {es : Entries Value}
    (hf : ∀ e ∈ es, ∀ s₁, Grows s s₁ → ∃ s' y, f s₁ e.2 = .ok (s', y) ∧ Grows s s') :
    ∃ s' es', threadPairs f s es = .ok (s', es') := by
  refine thread_isOk (Grows s) (fun e he s₁ hg => ?_) (Grows.refl s)
  obtain ⟨s', y, hy, hg'⟩ := hf e he s₁ hg
  exact ⟨s', (e.1, y), bind_eq_ok.2 ⟨_, hy, rfl⟩, hg'⟩

/-- `duplicate` copies data that end above the depth it goes down to. -/
theorem duplicate_isOk {s₀ : Store} {c : Copying} {d depth : Nat} (hc : c.Sound s₀)
    (hd : s₀.IsData v) (he : s₀.endsWithin d v = true) (hlt : d < depth) :
    ∃ p, duplicate depth c v = .ok p := by
  induction depth generalizing c v d with
  | zero => omega
  | succ depth ih =>
    cases v with
    | atom a copy => exact ⟨_, duplicate_atom hc (hd _ (Reaches.refl _ _)) depth copy⟩
    | ref r =>
      rw [duplicate]
      cases hfind : c.find? (.ref r) with
      | some w => exact ⟨_, rfl⟩
      | none =>
        obtain ⟨cell, hcell, -⟩ := hd _ (Reaches.refl _ _)
        obtain ⟨hkeys, hvals⟩ := (isData_ref_iff hcell).1 hd
        obtain ⟨e, rfl, hends⟩ := endsWithin_ref he hcell
        have hstep : ∀ x ∈ cell.values, ∀ c : Copying, c.Sound s₀ →
            ∃ c' y, duplicate depth c x = .ok (c', y) ∧ c'.Sound s₀ := fun x hx c hc => by
          obtain ⟨⟨c', y⟩, h⟩ := ih hc (hvals x hx) (hends x hx) (by omega)
          exact ⟨c', y, h, (duplicate_spec depth (hvals x hx) c c' y hc h).1⟩
        have hatom : ∀ c : Copying, c.Sound s₀ → ∀ a, isScalar a = true →
            duplicate depth c (.ofAtom a) = .ok (c, .ofAtom a) := fun c hc a ha => by
          obtain ⟨depth, rfl⟩ : ∃ n, depth = n + 1 := ⟨depth - 1, by omega⟩
          exact duplicate_atom hc ha depth 0
        simp only [hc.grows r cell hcell]
        cases cell with
        | mapping kind es =>
          obtain ⟨c', es', h⟩ := Copying.copyEntries_isOk hatom
            (fun e he => hkeys e.1 (List.mem_map_of_mem he))
            (fun e he => hstep e.2 (List.mem_map_of_mem he)) hc
          exact ⟨_, bind_eq_ok.2 ⟨_, h, rfl⟩⟩
        | list xs =>
          obtain ⟨c', ys, h⟩ := thread_isOk (Copying.Sound s₀) hstep hc
          exact ⟨_, bind_eq_ok.2 ⟨_, h, rfl⟩⟩
        | tuple xs =>
          obtain ⟨c', ys, h⟩ := thread_isOk (Copying.Sound s₀) hstep hc
          exact ⟨_, bind_eq_ok.2 ⟨_, h, rfl⟩⟩
        | set ks =>
          have h := Copying.copyKeys_isOk (hatom c hc) (allAtomsOfKeys_iff.2 hkeys)
          exact ⟨_, bind_eq_ok.2 ⟨_, h, rfl⟩⟩

/-- `cloneTo` copies data that end above the depth it goes down to. -/
theorem cloneTo_isOk {d depth : Nat} (hd : s.IsData v) (he : s.endsWithin d v = true)
    (hlt : d < depth) : ∃ p, cloneTo depth s v = .ok p := by
  induction depth generalizing s v d with
  | zero => omega
  | succ depth ih =>
    obtain ⟨p, hp⟩ := duplicate_isOk (Copying.start_sound s) hd he hlt
    cases v with
    | atom a copy => exact ⟨_, bind_eq_ok.2 ⟨p, hp, rfl⟩⟩
    | ref r =>
      obtain ⟨cell, hcell, -⟩ := hd _ (Reaches.refl _ _)
      obtain ⟨-, hvals⟩ := (isData_ref_iff hcell).1 hd
      obtain ⟨e, rfl, hends⟩ := endsWithin_ref he hcell
      have hstep : ∀ x ∈ cell.values, ∀ s₁, Grows s s₁ →
          ∃ s' y, cloneTo depth s₁ x = .ok (s', y) ∧ Grows s s' := fun x hx s₁ hg => by
        have hx' : s₁.IsData x := (hg.keeps (hvals x hx).closed).isData (hvals x hx)
        obtain ⟨⟨s', y⟩, h⟩ := ih hx' (hg.endsWithin (hends x hx)) (by omega)
        exact ⟨s', y, h, hg.trans (cloneTo_spec depth hx' h).1⟩
      simp only [cloneTo, cell?, hcell]
      cases cell with
      | mapping kind es =>
        obtain ⟨s', es', h⟩ := threadPairs_isOk fun e he => hstep e.2 (List.mem_map_of_mem he)
        exact ⟨_, bind_eq_ok.2 ⟨_, h, rfl⟩⟩
      | list xs =>
        obtain ⟨s', ys, h⟩ := thread_isOk (Grows s) hstep (Grows.refl s)
        exact ⟨_, bind_eq_ok.2 ⟨_, h, rfl⟩⟩
      | tuple xs => exact ⟨_, bind_eq_ok.2 ⟨p, hp, rfl⟩⟩
      | set ks => exact ⟨_, bind_eq_ok.2 ⟨p, hp, rfl⟩⟩

/-- What `clone` gives for data is a copy for a snapshot. -/
theorem clone_spec (hd : s.IsData v) (h : s.clone v = .ok (s', w)) :
    Grows s s' ∧ Cloned s s s' v w :=
  cloneTo_spec s.copyDepth hd h

theorem Cloned.isData {s₀ : Store} (h : Cloned s₀ s s' x y) (hd : s₀.IsData x) : s'.IsData y := by
  rw [h.isCopy.isFinite.isData_iff, h.isCopy.tree, Data.allAtoms_plain]
  exact h.isFinite.isData_iff.1 hd

/-- Finite data have a copy. -/
theorem clone_isOk (hf : s.IsFinite v) (hd : s.IsData v) : ∃ p, s.clone v = .ok p := by
  have hle : (s.size + 1) * 1 ≤ s.copyDepth := Nat.mul_le_mul_left _ (by omega)
  exact cloneTo_isOk hd hf.endsWithin_size (by omega)

end Store

end PathStore
