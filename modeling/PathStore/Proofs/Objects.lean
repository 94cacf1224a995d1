import PathStore.Proofs.Copies
import PathStore.Proofs.Edit
import PathStore.Storage
import PathStore.Store.Build

/-!
# Objects of the library

Beside the cells a store keeps the roots of storages, the views and the registries.  Writing and
removing along paths, making new values and copying data change cells only (`SameObjects`), whatever
their outcome, and so does what is done through a storage (`Storage.set_sameObjects`,
`Storage.delete_sameObjects`).  Copying values that are no data can add objects and loses none
(`cloneTo_storages_le`).
-/

namespace PathStore

namespace Store

/-- The objects of the library are the same in both stores. -/
structure SameObjects (s s' : Store) : Prop where
  storages : s'.storages = s.storages
  views : s'.views = s.views
  registries : s'.registries = s.registries

variable {s s' s'' : Store}

theorem SameObjects.refl (s : Store) : SameObjects s s := ⟨rfl, rfl, rfl⟩

theorem SameObjects.trans (h : SameObjects s s') (h' : SameObjects s' s'') : SameObjects s s'' :=
  ⟨h'.storages.trans h.storages, h'.views.trans h.views, h'.registries.trans h.registries⟩

/-! ## Cells -/

theorem put_sameObjects (s : Store) (r : Ref) (c : Cell) : SameObjects s (s.put r c) :=
  ⟨rfl, rfl, rfl⟩

theorem alloc_sameObjects (s : Store) (c : Cell) : SameObjects s (s.alloc c).1 :=
  ⟨rfl, rfl, rfl⟩

theorem assign_sameObjects {v new : Value} {seg : Segment} (h : s.assign v seg new = .ok s') :
    SameObjects s s' := by
  obtain ⟨r, c, c', -, -, -, rfl⟩ := assign_eq_ok h
  exact put_sameObjects s r c'

/-! ## Paths -/

theorem Descent.sameObjects {path here : Path} {cur : Value} {seg next : Segment}
    {e : Except Fault Value} (h : Descent s path here cur seg next s' e) : SameObjects s s' := by
  cases h with
  | replaced _ _ assign => exact (alloc_sameObjects _ _).trans (assign_sameObjects assign)
  | _ => exact .refl s

/-- Writing along a path changes cells only. -/
theorem writeFrom_sameObjects (s : Store) (path before : Path) (cur new : Value) (rest : Path) :
    SameObjects s (s.writeFrom path before cur new rest).store := by
  induction rest generalizing s before cur with
  | nil => exact .refl s
  | cons seg rest ih =>
    cases rest with
    | nil =>
      rw [writeFrom]
      cases h : s.assign cur seg new with
      | error fault => exact .refl s
      | ok s' => exact assign_sameObjects h
    | cons next rest =>
      rcases writeFrom_descent s path before cur new seg next rest with
        ⟨fault, -, hstore, -⟩ | ⟨s', child, hdesc, hstore, -⟩
      · rw [hstore]
        exact .refl s
      · rw [hstore]
        exact hdesc.sameObjects.trans (ih s' _ child)

theorem write_sameObjects (s : Store) (root : Value) (path : Path) (new : Value) :
    SameObjects s (s.write root path new).store :=
  writeFrom_sameObjects s path [] root new path

/-- Removing along a path changes cells only. -/
theorem remove_sameObjects {root old : Value} {path : Path} {keep : Bool}
    (h : s.remove root path keep = .ok (s', old)) : SameObjects s s' := by
  obtain ⟨rfl, -⟩ | ⟨r, c, c', seg, -, -, -, rfl⟩ := remove_eq_ok h
  · exact .refl _
  · exact put_sameObjects s r c'

/-! ## New values -/

mutual

/-- Making a value changes cells only. -/
theorem load_sameObjects (s : Store) (d : Data) : SameObjects s (s.load d).1 := by
  cases d with
  | leaf a => exact .refl s
  | mapping kind es => exact (loadEntries_sameObjects s es).trans (alloc_sameObjects _ _)
  | list xs => exact (loadAll_sameObjects s xs).trans (alloc_sameObjects _ _)
  | tuple xs => exact (loadAll_sameObjects s xs).trans (alloc_sameObjects _ _)
  | set ks => exact alloc_sameObjects s _

theorem loadAll_sameObjects (s : Store) (xs : List Data) : SameObjects s (s.loadAll xs).1 := by
  cases xs with
  | nil => exact .refl s
  | cons x xs => exact (load_sameObjects s x).trans (loadAll_sameObjects _ xs)

theorem loadEntries_sameObjects (s : Store) (es : List (MapKey × Data)) :
    SameObjects s (s.loadEntries es).1 := by
  cases es with
  | nil => exact .refl s
  | cons e es => exact (load_sameObjects s e.2).trans (loadEntries_sameObjects _ es)

end

/-! ## Copies -/

section
variable {σ α β : Type} {f : σ → α → Except Fault (σ × β)} {c c' : σ} {xs : List α} {ys : List β}

/-- Objects stay the same along a list when they do at each step. -/
theorem thread_sameObjects (store : σ → Store) (I : σ → Prop)
    (step : ∀ x ∈ xs, ∀ c c' y, I c → f c x = .ok (c', y) →
      I c' ∧ SameObjects (store c) (store c'))
    (hc : I c) (h : thread f c xs = .ok (c', ys)) : SameObjects (store c) (store c') := by
  induction xs generalizing c ys with
  | nil =>
    cases h
    exact .refl _
  | cons x xs ih =>
    rw [thread] at h
    obtain ⟨⟨c₁, y⟩, hx, h⟩ := bind_eq_ok.1 h
    obtain ⟨⟨c₂, ys'⟩, hxs, h⟩ := bind_eq_ok.1 h
    cases h
    obtain ⟨hc₁, hsame⟩ := step x List.mem_cons_self c c₁ y hc hx
    exact hsame.trans (ih (fun x hx => step x (List.mem_cons_of_mem _ hx)) hc₁ hxs)

end

variable {v w : Value}

/-- Copying data as a whole changes cells only. -/
theorem duplicate_sameObjects {s₀ : Store} {c c' : Copying} {depth : Nat} (hd : s₀.IsData v)
    (hc : c.Sound s₀) (h : duplicate depth c v = .ok (c', w)) : SameObjects c.store c'.store := by
  induction depth generalizing v w c c' with
  | zero => cases h
  | succ depth ih =>
    cases v with
    | atom a copy =>
      cases duplicate_atom_eq hc (hd _ (Reaches.refl _ _)) h
      exact .refl _
    | ref r =>
      rw [duplicate] at h
      cases hfind : c.find? (.ref r) with
      | some w' =>
        simp only [hfind, Except.ok.injEq, Prod.mk.injEq] at h
        rw [h.1]
        exact .refl _
      | none =>
        obtain ⟨cell, hcell, -⟩ := hd _ (Reaches.refl _ _)
        obtain ⟨hkeys, hvals⟩ := (isData_ref_iff hcell).1 hd
        have hstep : ∀ x ∈ cell.values, ∀ c c' : Copying, ∀ y, c.Sound s₀ →
            duplicate depth c x = .ok (c', y) → c'.Sound s₀ ∧ SameObjects c.store c'.store :=
          fun x hx c c' y hc h =>
            ⟨(duplicate_spec depth (hvals x hx) c c' y hc h).1, ih (hvals x hx) hc h⟩
        simp only [hfind, hc.grows r cell hcell] at h
        cases cell with
        | mapping kind es =>
          obtain ⟨⟨c₁, es'⟩, hes, h⟩ := bind_eq_ok.1 h
          cases h
          refine SameObjects.trans ?_ (alloc_sameObjects c₁.store _)
          refine thread_sameObjects Copying.store (Copying.Sound s₀)
            (fun e he c c' y hc h => ?_) hc hes
          obtain ⟨p, hp, h⟩ := bind_eq_ok.1 h
          obtain rfl := Copying.copyKey_eq_ok (fun a p ha h => duplicate_atom_eq hc ha h)
            (hkeys e.1 (List.mem_map_of_mem he)) hp
          obtain ⟨⟨c₂, x⟩, hx, h⟩ := bind_eq_ok.1 h
          cases h
          exact hstep e.2 (List.mem_map_of_mem he) _ _ x hc hx
        | list xs =>
          obtain ⟨⟨c₁, ys⟩, hxs, h⟩ := bind_eq_ok.1 h
          cases h
          exact (thread_sameObjects Copying.store (Copying.Sound s₀) hstep hc hxs).trans
            (alloc_sameObjects c₁.store _)
        | tuple xs =>
          obtain ⟨⟨c₁, ys⟩, hxs, h⟩ := bind_eq_ok.1 h
          have hsame := thread_sameObjects Copying.store (Copying.Sound s₀) hstep hc hxs
          by_cases heq : ys = xs
          · simp only [heq, if_true] at h
            cases h
            exact hsame
          · simp only [heq, if_false] at h
            cases h
            exact hsame.trans (alloc_sameObjects c₁.store _)
        | set ks =>
          obtain ⟨⟨c₁, ks'⟩, hks, h⟩ := bind_eq_ok.1 h
          cases Copying.copyKeys_eq_ok (fun a p ha h => duplicate_atom_eq hc ha h)
            (allAtomsOfKeys_iff.2 hkeys) hks
          cases h
          exact alloc_sameObjects c.store _

/-- Copying data for a snapshot changes cells only. -/
theorem cloneTo_sameObjects {depth : Nat} (hd : s.IsData v) (h : cloneTo depth s v = .ok (s', w)) :
    SameObjects s s' := by
  induction depth generalizing s v s' w with
  | zero => cases h
  | succ depth ih =>
    have hstep : ∀ x, s.IsData x → ∀ s₁ s₂ y, Grows s s₁ → cloneTo depth s₁ x = .ok (s₂, y) →
        Grows s s₂ ∧ SameObjects s₁ s₂ := fun x hx s₁ s₂ y hg h => by
      have hx₁ : s₁.IsData x := (hg.keeps hx.closed).isData hx
      exact ⟨hg.trans (cloneTo_spec depth hx₁ h).1, ih hx₁ h⟩
    rw [cloneTo] at h
    split at h
    · next kind es hc =>
      cases v with
      | atom a copy => cases hc
      | ref r =>
        obtain ⟨-, hvals⟩ := (isData_ref_iff hc).1 hd
        obtain ⟨⟨s₁, es'⟩, hes, h⟩ := bind_eq_ok.1 h
        cases h
        refine SameObjects.trans ?_ (alloc_sameObjects s₁ _)
        refine thread_sameObjects id (Grows s) (fun e he s₁ s₂ y hg h => ?_) (Grows.refl s) hes
        obtain ⟨⟨s₃, x⟩, hx, h⟩ := bind_eq_ok.1 h
        cases h
        exact hstep e.2 (hvals _ (List.mem_map_of_mem he)) s₁ _ x hg hx
    · next xs hc =>
      cases v with
      | atom a copy => cases hc
      | ref r =>
        obtain ⟨-, hvals⟩ := (isData_ref_iff hc).1 hd
        obtain ⟨⟨s₁, ys⟩, hxs, h⟩ := bind_eq_ok.1 h
        cases h
        exact (thread_sameObjects id (Grows s) (fun x hx => hstep x (hvals x hx)) (Grows.refl s)
          hxs).trans (alloc_sameObjects s₁ _)
    · obtain ⟨⟨c, w'⟩, hdup, h⟩ := bind_eq_ok.1 h
      cases h
      exact duplicate_sameObjects hd (Copying.start_sound s) hdup

/-! ## What templates describe -/

theorem andThen_sameObjects {α β : Type} {e : Effect α} {f : Store → α → Effect β}
    (h : SameObjects s e.store) (hf : ∀ a, SameObjects e.store (f e.store a).store) :
    SameObjects s (e.andThen f).store := by
  cases hr : e.result with
  | error fault =>
    rw [(Effect.andThen_of_error hr).1]
    exact h
  | ok a =>
    rw [(Effect.andThen_of_ok hr).1]
    exact h.trans (hf a)

theorem anew_sameObjects (s : Store) (a : Atom) : SameObjects s (s.anew a).1 := by
  unfold anew
  split
  · exact .refl s
  · exact ⟨rfl, rfl, rfl⟩

mutual

/-- Making what a template describes changes cells only. -/
theorem build_sameObjects (names : Names) (s : Store) (t : Template) :
    SameObjects s (s.build names t).store := by
  cases t with
  | atom a => exact anew_sameObjects s a
  | name x =>
    rw [build]
    cases names.lookup x <;> exact .refl s
  | mapping kind ps =>
    exact andThen_sameObjects (buildPairs_sameObjects names s ps) fun _ => alloc_sameObjects _ _
  | list ts =>
    exact andThen_sameObjects (buildAll_sameObjects names s ts) fun _ => alloc_sameObjects _ _
  | tuple ts =>
    exact andThen_sameObjects (buildAll_sameObjects names s ts) fun _ => alloc_sameObjects _ _
  | set ts =>
    exact andThen_sameObjects (buildKeys_sameObjects names s ts) fun _ => alloc_sameObjects _ _

theorem buildAll_sameObjects (names : Names) (s : Store) (ts : List Template) :
    SameObjects s (s.buildAll names ts).store := by
  cases ts with
  | nil => exact .refl s
  | cons t ts =>
    refine andThen_sameObjects (build_sameObjects names s t) fun _ => ?_
    exact andThen_sameObjects (buildAll_sameObjects names _ ts) fun _ => .refl _

theorem buildKeys_sameObjects (names : Names) (s : Store) (ts : List Template) :
    SameObjects s (s.buildKeys names ts).store := by
  cases ts with
  | nil => exact .refl s
  | cons t ts =>
    refine andThen_sameObjects (build_sameObjects names s t) fun v => ?_
    cases (s.build names t).store.key v with
    | error fault => exact .refl _
    | ok k => exact andThen_sameObjects (buildKeys_sameObjects names _ ts) fun _ => .refl _

theorem buildPairs_sameObjects (names : Names) (s : Store) (ps : List (Template × Template)) :
    SameObjects s (s.buildPairs names ps).store := by
  cases ps with
  | nil => exact .refl s
  | cons p ps =>
    refine andThen_sameObjects (build_sameObjects names s p.1) fun k => ?_
    refine andThen_sameObjects (build_sameObjects names _ p.2) fun v => ?_
    cases (((s.build names p.1).store).build names p.2).store.key k with
    | error fault => exact .refl _
    | ok k => exact andThen_sameObjects (buildPairs_sameObjects names _ ps) fun _ => .refl _

end

/-! ## Copies of any values -/

section
variable {σ α β : Type} {f : σ → α → Except Fault (σ × β)} {c c' : σ} {xs : List α} {ys : List β}

/-- What no step along a list makes smaller is not smaller in the end. -/
theorem thread_le (count : σ → Nat)
    (step : ∀ x ∈ xs, ∀ c c' y, f c x = .ok (c', y) → count c ≤ count c')
    (h : thread f c xs = .ok (c', ys)) : count c ≤ count c' := by
  induction xs generalizing c ys with
  | nil =>
    cases h
    exact Nat.le_refl _
  | cons x xs ih =>
    rw [thread] at h
    obtain ⟨⟨c₁, y⟩, hx, h⟩ := bind_eq_ok.1 h
    obtain ⟨⟨c₂, ys'⟩, hxs, h⟩ := bind_eq_ok.1 h
    cases h
    have h₁ := step x List.mem_cons_self c c₁ y hx
    have h₂ := ih (fun x hx => step x (List.mem_cons_of_mem _ hx)) hxs
    omega

theorem threadPairs_le {κ : Type} {es : List (κ × α)} {fs : List (κ × β)} (count : σ → Nat)
    (step : ∀ c x c' y, f c x = .ok (c', y) → count c ≤ count c')
    (h : threadPairs f c es = .ok (c', fs)) : count c ≤ count c' := by
  refine thread_le count (fun e _ c c' y h => ?_) h
  obtain ⟨⟨c₁, v⟩, hv, h⟩ := bind_eq_ok.1 h
  cases h
  exact step c e.2 _ v hv

end

namespace Copying

variable {f : Copier} {c c' : Copying} {v w : Value}

/-- The number of storages while values are copied. -/
abbrev storageCount (c : Copying) : Nat := c.store.storages.size

/-- Copying with `f` loses no storage. -/
def Keeping (f : Copier) : Prop :=
  ∀ c v c' w, f c v = .ok (c', w) → c.storageCount ≤ c'.storageCount

theorem copyAtom_le (hf : Keeping f) {a : Atom} {copy : Nat}
    (h : c.copyAtom f copy a = .ok (c', w)) : c.storageCount ≤ c'.storageCount := by
  cases a with
  | object kind n =>
    cases kind with
    | storage =>
      obtain ⟨⟨c₁, root⟩, hroot, h⟩ := bind_eq_ok.1 h
      cases h
      have hle := hf _ _ _ _ hroot
      simp only [storageCount, Array.size_push, Array.size_setIfInBounds] at hle ⊢
      omega
    | view =>
      obtain ⟨⟨c₁, root⟩, hroot, h⟩ := bind_eq_ok.1 h
      cases h
      have hle := hf _ _ _ _ hroot
      exact hle
    | container =>
      obtain ⟨⟨c₁, ready⟩, hready, h⟩ := bind_eq_ok.1 h
      cases h
      have hle := threadPairs_le storageCount hf hready
      exact hle
    | state => cases h
    | listener name => cases h
    | function =>
      cases h
      exact Nat.le_refl _
  | _ =>
    cases h
    exact Nat.le_refl _

mutual

theorem copyKey_le (hf : Keeping f) {c c' : Copying} {k k' : MapKey}
    (h : c.copyKey f k = .ok (c', k')) : c.storageCount ≤ c'.storageCount := by
  cases k with
  | atom a =>
    obtain ⟨⟨c₁, v⟩, hv, h⟩ := bind_eq_ok.1 h
    have hle := hf _ _ _ _ hv
    cases v <;> (cases h; exact hle)
  | tuple ks =>
    obtain ⟨⟨c₁, ks'⟩, hks, h⟩ := bind_eq_ok.1 h
    cases h
    exact copyKeys_le hf hks

theorem copyKeys_le (hf : Keeping f) {c c' : Copying} {ks ks' : List MapKey}
    (h : c.copyKeys f ks = .ok (c', ks')) : c.storageCount ≤ c'.storageCount := by
  cases ks with
  | nil =>
    cases h
    exact Nat.le_refl _
  | cons k ks =>
    obtain ⟨⟨c₁, k₁⟩, hk, h⟩ := bind_eq_ok.1 h
    obtain ⟨⟨c₂, ks₂⟩, hks, h⟩ := bind_eq_ok.1 h
    cases h
    exact (copyKey_le hf hk).trans (copyKeys_le hf hks)

end

end Copying

open Copying in
/-- Copying a value as a whole loses no storage. -/
theorem duplicate_storages_le {depth : Nat} {c c' : Copying} {v w : Value}
    (h : duplicate depth c v = .ok (c', w)) : c.storageCount ≤ c'.storageCount := by
  induction depth generalizing c v c' w with
  | zero => cases h
  | succ depth ih =>
    have hf : Keeping (duplicate depth) := fun c v c' w h => ih h
    cases v with
    | atom a copy =>
      rw [duplicate] at h
      cases hfind : c.find? (.atom a copy) with
      | some w' =>
        simp only [hfind, Except.ok.injEq, Prod.mk.injEq] at h
        rw [h.1]
      | none =>
        simp only [hfind] at h
        exact copyAtom_le hf h
    | ref r =>
      rw [duplicate] at h
      cases hfind : c.find? (.ref r) with
      | some w' =>
        simp only [hfind, Except.ok.injEq, Prod.mk.injEq] at h
        rw [h.1]
      | none =>
        cases hc : c.store.get? r with
        | none =>
          simp only [hfind, hc, Except.ok.injEq, Prod.mk.injEq] at h
          rw [h.1]
        | some cell =>
          simp only [hfind, hc] at h
          cases cell with
          | mapping kind es =>
            obtain ⟨⟨c₁, es'⟩, hes, h⟩ := bind_eq_ok.1 h
            cases h
            have hle := thread_le storageCount (fun e _ c c' y h => by
              obtain ⟨⟨c₂, k⟩, hk, h⟩ := bind_eq_ok.1 h
              obtain ⟨⟨c₃, x⟩, hx, h⟩ := bind_eq_ok.1 h
              cases h
              exact (copyKey_le hf hk).trans (hf _ _ _ _ hx)) hes
            exact hle
          | list xs =>
            obtain ⟨⟨c₁, ys⟩, hxs, h⟩ := bind_eq_ok.1 h
            cases h
            have hle := thread_le storageCount (fun x _ c c' y h => hf c x c' y h) hxs
            exact hle
          | tuple xs =>
            obtain ⟨⟨c₁, ys⟩, hxs, h⟩ := bind_eq_ok.1 h
            have hle := thread_le storageCount (fun x _ c c' y h => hf c x c' y h) hxs
            by_cases heq : ys = xs
            · simp only [heq, if_true] at h
              cases h
              exact hle
            · simp only [heq, if_false] at h
              cases h
              exact hle
          | set ks =>
            obtain ⟨⟨c₁, ks'⟩, hks, h⟩ := bind_eq_ok.1 h
            cases h
            have hle := copyKeys_le hf hks
            exact hle

/-- Copying a value for a snapshot loses no storage. -/
theorem cloneTo_storages_le {depth : Nat} {v w : Value} (h : cloneTo depth s v = .ok (s', w)) :
    s.storages.size ≤ s'.storages.size := by
  induction depth generalizing s v s' w with
  | zero => cases h
  | succ depth ih =>
    rw [cloneTo] at h
    split at h
    · obtain ⟨⟨s₁, es'⟩, hes, h⟩ := bind_eq_ok.1 h
      cases h
      have hle := threadPairs_le (fun s : Store => s.storages.size) (fun s x s' y h => ih h) hes
      exact hle
    · obtain ⟨⟨s₁, ys⟩, hxs, h⟩ := bind_eq_ok.1 h
      cases h
      have hle := thread_le (fun s : Store => s.storages.size) (fun x _ s s' y h => ih h) hxs
      exact hle
    · obtain ⟨⟨c, w'⟩, hdup, h⟩ := bind_eq_ok.1 h
      cases h
      have hle := duplicate_storages_le hdup
      exact hle

end Store

/-! ## Storages -/

namespace Storage

open Store

/-- Putting a value under a key leaves the store as it is or writes along a path. -/
theorem set_store_eq (st : Storage) (s : Store) (key new : Value) :
    (st.set s key new).store = s ∨
      ∃ path, (st.set s key new).store = (s.write st.root path new).store := by
  cases hk : keyPath s key with
  | error fault =>
    rw [st.set_of_keyPath_error hk]
    exact Or.inl rfl
  | ok path => exact Or.inr ⟨path, (st.set_of_keyPath hk new).1⟩

/-- Taking out the value under a key leaves the store as it is or removes along a path. -/
theorem delete_store_eq (st : Storage) (s : Store) (key : Value) (keep : Choice) :
    (st.delete s key keep).store = s ∨
      ∃ path old, s.remove st.root path keep.yes = .ok ((st.delete s key keep).store, old) := by
  unfold delete
  cases usableKey? key with
  | none => exact Or.inl rfl
  | some trimmed =>
    simp only
    cases Path.read trimmed with
    | error fault => exact Or.inl rfl
    | ok path =>
      simp only
      cases hr : s.remove st.root path keep.yes with
      | error fault => exact Or.inl rfl
      | ok p =>
        exact Or.inr ⟨path, p.2, hr⟩

theorem set_sameObjects (st : Storage) (s : Store) (key new : Value) :
    s.SameObjects (st.set s key new).store := by
  rcases st.set_store_eq s key new with h | ⟨path, h⟩ <;> rw [h]
  · exact .refl s
  · exact write_sameObjects s st.root path new

theorem delete_sameObjects (st : Storage) (s : Store) (key : Value) (keep : Choice) :
    s.SameObjects (st.delete s key keep).store := by
  rcases st.delete_store_eq s key keep with h | ⟨path, old, h⟩
  · rw [h]
    exact .refl s
  · exact remove_sameObjects h

end Storage

end PathStore
