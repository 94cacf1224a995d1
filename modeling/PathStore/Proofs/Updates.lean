import Mathlib
import PathStore.Proofs.Writes
import PathStore.Proofs.Written

/-!
# Writing as an update of a tree

`Data.updateAt` is what a write makes of a tree, said from the end of the path upwards: a value is
placed in its last slot, and each level above gets the changed level below it placed in its slot.
What the level below starts from is what stands in the slot (`Data.level`): a new container where
there is nothing, the items of a list under their positions where a name comes next, and else what is
there.  It is said of lists of entries and items alone, and no step of it fails.

A write goes the other way: it puts empty containers into the store from the top, and fills them
later.  Where it succeeds, and positions count from the start, both give the same tree: on trees
(`Data.writeFrom_eq_updateAt`), and so below the root of an unshared tree in a store
(`Store.write_eq_updateAt`).  A write does not look at the value that it puts in, so what it does with
an atom it does with every value (`Store.writeFrom_swapped`).
-/

namespace PathStore

/-- A segment that is a name or counts from the start of a list. -/
def Segment.FromStart : Segment → Prop
  | key _ => True
  | index position => 0 ≤ position

theorem Segment.IsWritten.fromStart {seg : Segment} (h : seg.IsWritten) : seg.FromStart := by
  cases seg with
  | key k => trivial
  | index p => exact h.1

namespace Data

/-! ## Definitions -/

/-- Whether an entry stands under the name of a segment. -/
def isUnder {α : Type} (seg : Segment) (e : MapKey × α) : Bool :=
  (MapKey.text seg.spelling).same e.1

/-- What stands in a slot; nothing where there is no such slot. -/
def slot : Data → Segment → Data
  | mapping _ es, seg => ((List.find? (isUnder seg) es).map Prod.snd).getD nothing
  | list xs, .index p => xs[p.toNat]?.getD nothing
  | _, _ => nothing

/-- The contents with `new` placed in a slot.  In a mapping an entry that is there keeps its place and
a new one goes last; a list is filled up with nothing as far as the position. -/
def place (t : Data) (seg : Segment) (new : Data) : Data :=
  match t, seg with
  | mapping kind es, seg =>
    match List.findIdx? (isUnder seg) es with
    | some i => mapping kind (List.modify es i fun e => (e.1, new))
    | none => mapping kind (es ++ [(.text seg.spelling, new)])
  | list xs, .index p =>
    list ((xs ++ List.replicate (p.toNat + 1 - xs.length) nothing).set p.toNat new)
  | t, _ => t

/-- The container that `next` is placed in, given what stands in the slot before it: a new one where
there is nothing, and a mapping of the items of a list where `next` is a name.  A mapping is never
turned into a list. -/
def level : Data → Segment → Data
  | leaf .none, .index _ => list []
  | leaf .none, .key _ => mapping .plain []
  | list xs, .key _ => mapping .plain (xs.mapIdx fun n x => (.text (Text.decimal n), x))
  | t, _ => t

/-- The contents with `new` at the end of a path. -/
def updateAt (t : Data) (path : Path) (new : Data) : Data :=
  match path with
  | [] => t
  | [last] => t.place last new
  | seg :: next :: rest => t.place seg (((t.slot seg).level next).updateAt (next :: rest) new)

/-! ## Entries as lists -/

section
variable {α : Type} (seg : Segment) (es : Entries α)

theorem find?_eq_map_find? :
    Entries.find? (.text seg.spelling) es = (List.find? (isUnder seg) es).map Prod.snd := by
  induction es with
  | nil => rfl
  | cons e es ih =>
    rw [Entries.find?, List.find?_cons, ih]
    unfold isUnder
    cases (MapKey.text seg.spelling).same e.1 <;> rfl

theorem insert_eq_modify (v : α) :
    Entries.insert (.text seg.spelling) v es =
      match List.findIdx? (isUnder seg) es with
      | some i => List.modify es i fun e => (e.1, v)
      | none => es ++ [(.text seg.spelling, v)] := by
  induction es with
  | nil => rfl
  | cons e es ih =>
    rw [Entries.insert, List.findIdx?_cons, ih]
    show (if isUnder seg e = true then _ else _) = _
    cases isUnder seg e with
    | true => rfl
    | false => cases List.findIdx? (isUnder seg) es <;> rfl

theorem numbered_eq_mapIdx (start : Nat) (xs : List α) :
    Entries.numbered start xs = xs.mapIdx fun n x => (.text (Text.decimal ↑(start + n)), x) := by
  induction xs generalizing start with
  | nil => rfl
  | cons x xs ih =>
    rw [Entries.numbered, ih, List.mapIdx_cons]
    simp only [Nat.add_zero, Nat.add_assoc, Nat.add_comm 1]

end

/-! ## The steps of a write -/

variable {t t' child slot new : Data} {seg next : Segment} {path here before rest : Path}

theorem lookup_eq_slot (hseg : seg.FromStart) (h : t.lookup seg = .ok child) :
    child = t.slot seg := by
  cases t with
  | mapping kind es =>
    obtain ⟨-, hfind⟩ := Segment.map_name_eq_ok h
    rw [← hfind, find?_eq_map_find?, Data.slot]
  | list xs =>
    cases seg with
    | key k => exact (Except.ok.inj h).symm
    | index p => exact Except.ok.inj (h.symm.trans (itemAt_of_nonneg hseg))
  | leaf a => exact (Except.ok.inj h).symm
  | tuple xs => exact (Except.ok.inj h).symm
  | set ks => exact (Except.ok.inj h).symm

/-- Setting an item and filling a list up are one thing: filling up and then setting. -/
theorem assignAt_eq_set {α : Type} {fill new : α} {xs ys : List α} {p : Int} (hp : 0 ≤ p)
    (h : assignAt fill xs p new = .ok ys) :
    ys = (xs ++ List.replicate (p.toNat + 1 - xs.length) fill).set p.toNat new := by
  obtain ⟨n, hlt, ho, rfl⟩ | ⟨hle, rfl⟩ := assignAt_eq_ok h
  · rw [offset?_of_nonneg hp hlt] at ho
    cases ho
    have hfill : p.toNat + 1 - xs.length = 0 := by omega
    rw [hfill, List.replicate_zero, List.append_nil]
  · have hfill : p.toNat + 1 - xs.length = (p.toNat - xs.length) + 1 := by omega
    have hlast : p.toNat = (xs ++ List.replicate (p.toNat - xs.length) fill).length := by
      simp only [List.length_append, List.length_replicate]
      omega
    rw [hfill, List.replicate_succ', ← List.append_assoc, List.set_append_right _ _ (by omega),
      ← hlast, Nat.sub_self]
    rfl

theorem assign_eq_place (hseg : seg.FromStart) (h : t.assign seg new = .ok t') :
    t' = t.place seg new := by
  cases t with
  | mapping kind es =>
    obtain ⟨-, rfl⟩ := Segment.map_name_eq_ok h
    rw [insert_eq_modify, place]
    cases List.findIdx? (isUnder seg) es <;> rfl
  | list xs =>
    cases seg with
    | key k => cases h
    | index p =>
      rw [assign] at h
      cases ha : assignAt nothing xs p new with
      | error fault => simp [ha, Except.map] at h
      | ok ys =>
        simp only [ha, Except.map, Except.ok.injEq] at h
        rw [← h, assignAt_eq_set hseg ha]
        rfl
  | leaf a => cases h
  | tuple xs => cases h
  | set ks => cases h

theorem enter_eq_level (h : enter path here next slot = .ok child) : child = slot.level next := by
  unfold enter at h
  split at h
  · next hn =>
    -- nothing stands in the slot
    cases h
    cases slot with
    | leaf a =>
      cases a with
      | none => cases next <;> rfl
      | _ => cases hn
    | _ => cases hn
  · split at h
    · cases h
      rfl
    · cases h
      rfl
    · cases h
      rw [numbered_eq_mapIdx, level]
      simp only [Nat.zero_add]
    · cases h

theorem update_eq_ok {below : Data × Except Fault Unit} (h : t.update seg below = (t', .ok ())) :
    below.2 = .ok () ∧ t.assign seg below.1 = .ok t' := by
  unfold update at h
  cases ha : t.assign seg below.1 with
  | error fault => simp [ha] at h
  | ok u =>
    simp only [ha, Prod.mk.injEq] at h
    exact ⟨h.2, by rw [h.1]⟩

/-- A write that succeeds is an update, from wherever on the path it starts. -/
theorem writeFrom_eq_updateAt (hpath : ∀ seg ∈ rest, seg.FromStart)
    (h : t.writeFrom path before new rest = (t', .ok ())) : t' = t.updateAt rest new := by
  induction rest generalizing t t' before with
  | nil =>
    cases h
    rfl
  | cons seg rest ih =>
    obtain ⟨hseg, hrest⟩ := List.forall_mem_cons.1 hpath
    cases rest with
    | nil => exact assign_eq_place hseg (update_eq_ok h).2
    | cons next rest =>
      rw [writeFrom] at h
      cases hl : t.lookup seg with
      | error fault => simp [hl] at h
      | ok slot =>
        rw [hl] at h
        cases he : enter path (before ++ [seg]) next slot with
        | error fault => simp [he] at h
        | ok child =>
          simp only [he] at h
          obtain ⟨hbelow, hassign⟩ := update_eq_ok h
          have hupdated : (writeFrom path (before ++ [seg]) child new (next :: rest)).1 =
              child.updateAt (next :: rest) new := ih hrest (Prod.ext rfl hbelow)
          rw [assign_eq_place hseg hassign, updateAt, hupdated, enter_eq_level he,
            lookup_eq_slot hseg hl]

end Data

/-! ## Trees in a store -/

namespace Store

/-- Two stores are the same but for the last slot of a path: `v` stands there in the one and `w` in
the other. -/
def Swapped (path : Path) (s s' : Store) (v w : Value) : Prop :=
  ∃ (s₀ : Store) (r : Ref) (c c₁ c₂ : Cell) (last : Segment),
    path.getLast? = some last ∧ s₀.get? r = some c ∧
    c.assign v last = .ok c₁ ∧ c.assign w last = .ok c₂ ∧ s = s₀.put r c₁ ∧ s' = s₀.put r c₂

variable {s : Store} {root cur new : Value} {path before rest : Path}

/-- A write does with one value what it does with another. -/
theorem writeFrom_swapped (hne : rest ≠ [])
    (h : (s.writeFrom path before cur new rest).result = .ok ()) (v : Value) :
    (s.writeFrom path before cur v rest).result = .ok () ∧
      Swapped rest (s.writeFrom path before cur v rest).store
        (s.writeFrom path before cur new rest).store v new := by
  induction rest generalizing s before cur with
  | nil => exact absurd rfl hne
  | cons seg rest ih =>
    cases rest with
    | nil =>
      rw [writeFrom] at h ⊢
      rw [writeFrom]
      cases ha : s.assign cur seg new with
      | error fault =>
        rw [ha] at h
        cases h
      | ok s' =>
        obtain ⟨r, c, c', rfl, hc, hca, rfl⟩ := assign_eq_ok ha
        obtain ⟨c₁, hca₁⟩ := Cell.assign_isOk_of_assign hca v
        have ha₁ : s.assign (.ref r) seg v = .ok (s.put r c₁) := by
          simp only [assign, hc, hca₁, Except.map]
        rw [ha₁]
        exact ⟨rfl, s, r, c, c₁, c', seg, rfl, hc, hca₁, hca, rfl, rfl⟩
    | cons next rest =>
      cases hr : (s.descend path (before ++ [seg]) cur seg next).result with
      | error fault =>
        rw [writeFrom, (Effect.andThen_of_error hr).2] at h
        cases h
      | ok child =>
        -- the way down is the same, and so is what is met on it
        obtain ⟨hstore, hresult⟩ := writeFrom_of_descend hr new rest
        obtain ⟨hstore', hresult'⟩ := writeFrom_of_descend hr v rest
        rw [hresult] at h
        rw [hstore, hstore', hresult']
        obtain ⟨hok, hswapped⟩ := ih (List.cons_ne_nil _ _) h
        refine ⟨hok, ?_⟩
        unfold Swapped
        rw [List.getLast?_cons_cons]
        exact hswapped

/-- Writing a value that has no container in common with an unshared tree updates the tree: along
every path whose positions count from the start, as those of all paths that are read from a text do.
A value that leads back to itself has no finite contents; of this one too it holds that it stands in
the last slot where an atom would stand, of which the tree is the update, and that nothing else is
different. -/
theorem write_eq_updateAt (hu : s.Unshared root) (ha : s.Apart Cell.isContainer new root) :
    (∀ path : Path, path ≠ [] → (∀ seg ∈ path, seg.FromStart) →
      (s.write root path new).result = .ok () →
      (s.IsFinite new →
        (s.write root path new).store.tree root = (s.tree root).updateAt path (s.tree new)) ∧
      ∀ a copy,
        (s.write root path (.atom a copy)).store.tree root = (s.tree root).updateAt path (.leaf a) ∧
        Swapped path (s.write root path (.atom a copy)).store (s.write root path new).store
          (.atom a copy) new) ∧
    ∀ (t : Text) (path : Path), Path.parse t = .ok path → ∀ seg ∈ path, seg.FromStart := by
  have hupdate : ∀ (path : Path) (v : Value), (∀ seg ∈ path, seg.FromStart) → s.IsFinite v →
      s.Apart Cell.isContainer v root → (s.write root path v).result = .ok () →
      (s.write root path v).store.tree root = (s.tree root).updateAt path (s.tree v) := by
    intro path v hpath hv hav hok
    obtain ⟨-, -, htree⟩ := write_spec hu.isFinite hu.separate hv hav path
    rw [hok] at htree
    exact Data.writeFrom_eq_updateAt hpath htree
  refine ⟨fun path hne hpath h => ⟨fun hn => hupdate path new hpath hn ha h, fun a copy => ?_⟩,
    fun t path hp seg hseg => (Path.isWritten_of_parse hp seg hseg).fromStart⟩
  obtain ⟨hok, hswapped⟩ := writeFrom_swapped hne h (.atom a copy)
  exact ⟨hupdate path _ hpath (.atom a copy) (apart_atom _ _ _ _ _) hok, hswapped⟩

/-- A name is asked of a list, and a position below the name: the list becomes a mapping, and a new
list is made and filled up.  The value that is put in holds one list twice. -/
theorem write_eq_updateAt_converts :
    ∃ (s : Store) (root new : Value),
      s.Unshared root ∧ s.IsFinite new ∧ s.Apart Cell.isContainer new root ∧
      s.tree root = .mapping .plain [(.text "a", .list [.leaf (.int 7)])] ∧
      s.tree new = .list [.list [], .list []] ∧
      (s.write root [.key "a", .key "b", .index 1] new).result = .ok () ∧
      (s.write root [.key "a", .key "b", .index 1] new).store.tree root =
        .mapping .plain [(.text "a", .mapping .plain [(.text "0", .leaf (.int 7)),
          (.text "b", .list [.leaf .none, .list [.list [], .list []]])])] := by
  obtain ⟨s, hs⟩ : ∃ s, s = (((Store.empty.load (.mapping .plain
      [(.text "a", .list [.leaf (.int 7)])])).1.alloc (.list [])).1.alloc
        (.list [.ref ⟨2⟩, .ref ⟨2⟩])).1 := ⟨_, rfl⟩
  have hu : s.Unshared (.ref ⟨1⟩) := by
    subst hs
    decide +kernel
  have hn : s.IsFinite (.ref ⟨3⟩) := by
    subst hs
    decide +kernel
  have ha : s.Apart Cell.isContainer (.ref ⟨3⟩) (.ref ⟨1⟩) := by
    refine apart_of_disjoint hn hu.isFinite (List.disjoint_left.2 ?_)
    subst hs
    decide +kernel
  have hpath : ∀ seg ∈ [Segment.key "a", .key "b", .index 1], seg.FromStart := by
    simp [Segment.FromStart]
  have hok : (s.write (.ref ⟨1⟩) [.key "a", .key "b", .index 1] (.ref ⟨3⟩)).result = .ok () := by
    subst hs
    cbv
  have hwrite := ((write_eq_updateAt hu ha).1 _ (List.cons_ne_nil _ _) hpath hok).1 hn
  refine ⟨s, .ref ⟨1⟩, .ref ⟨3⟩, hu, hn, ha, ?_, ?_, hok, hwrite.trans ?_⟩
  · subst hs
    cbv
  · subst hs
    cbv
  · subst hs
    cbv

end Store

end PathStore
