import Mathlib
import PathStore.Proofs.Operations
import PathStore.Proofs.Snapshots

/-!
# Snapshots are transparent

Callers get, set and delete values of a state, and some of the calls install snapshots.  What the
calls answer and what the state's storage holds in the end is told by the operations and the contents
at the start alone (`Played.tracks`), up to mappings that a snapshot has made plain.  So two runs of
the same operations agree whenever and however often snapshots are installed in them
(`snapshots_transparent`).
-/

namespace PathStore

/-! ## Operations on plain trees -/

/-- The operation with contents made plain. -/
def Op.plain : Op → Op
  | .set key new => .set key new.plain
  | op => op

namespace Data

theorem setAt_plain (t new : Data) (key : Atom) :
    t.plain.setAt key new.plain = ((t.setAt key new).1.plain, (t.setAt key new).2) := by
  unfold setAt
  cases key.path with
  | error fault => rfl
  | ok path => exact write_plain t new path

theorem deleteAt_plain (t : Data) (key : Atom) (keep : Bool) :
    t.plain.deleteAt key keep =
      ((t.deleteAt key keep).1.plain, (t.deleteAt key keep).2.map plain) := by
  unfold deleteAt
  cases Storage.usableKey? (.ofAtom key) with
  | none => rfl
  | some trimmed =>
    simp only
    cases Path.read trimmed with
    | error fault => rfl
    | ok path =>
      simp only [Except.bind, remove_plain]
      cases t.remove keep path <;> rfl

theorem perform_plain (t : Data) (op : Op) :
    t.plain.perform op.plain = ((t.perform op).1.plain, (t.perform op).2.map plain) := by
  cases op with
  | get key =>
    simp only [perform, Op.plain]
    cases key.path with
    | error fault => rfl
    | ok path => exact congrArg (Prod.mk t.plain) (read_plain t path)
  | set key new =>
    simp only [perform, Op.plain, setAt_plain]
    cases (t.setAt key new).2 <;> rfl
  | delete key keep => exact deleteAt_plain t key keep.yes

end Data

/-! ## Runs -/

/-- A value that a caller has just made: data in which no container occurs twice, and none that is
already in the tree below a root. -/
structure Store.Fresh (s : Store) (root v : Value) : Prop where
  isData : s.IsData v
  unshared : s.Unshared v
  apart : s.Apart Cell.isContainer v root

/-- Operations on state `n`, carried out one after the other from `h₀` on, have led to `h` with these
outcomes.  Before a value is set it is made, the calls that change the state may install a snapshot
afterwards, and snapshots may be installed at any time. -/
inductive Played (n : Nat) (h₀ : Hub) : List Op → List (Except Fault Data) → Hub → Prop
  | start : Played n h₀ [] [] h₀
  | get {ops : List Op} {outs : List (Except Fault Data)} {h : Hub} (run : Played n h₀ ops outs h)
      (key : Atom) (scalar : Store.isScalar key = true) (copy : Nat) :
      Played n h₀ (ops ++ [.get key])
        (outs ++ [(h.getValue n (.atom key copy)).map h.store.tree]) h
  | set {ops : List Op} {outs : List (Except Fault Data)} {h : Hub} {s : Store} {v : Value}
      (run : Played n h₀ ops outs h) (key : Atom) (scalar : Store.isScalar key = true) (copy : Nat)
      (grows : h.store.Grows s) (fresh : s.Fresh (h.state n).storage.root v) (force : Bool) :
      Played n h₀ (ops ++ [.set key (s.tree v)])
        (outs ++ [({ h with store := s }.setValue n (.atom key copy) v force).2.map
          fun _ => Data.nothing])
        ({ h with store := s }.setValue n (.atom key copy) v force).1
  | delete {ops : List Op} {outs : List (Except Fault Data)} {h : Hub}
      (run : Played n h₀ ops outs h) (key : Atom) (scalar : Store.isScalar key = true) (copy : Nat)
      (keep : Choice) (force : Bool) :
      Played n h₀ (ops ++ [.delete key keep])
        (outs ++ [(h.deleteValue n (.atom key copy) keep force).2.map
          (h.deleteValue n (.atom key copy) keep force).1.store.tree])
        (h.deleteValue n (.atom key copy) keep force).1
  | refresh {ops : List Op} {outs : List (Except Fault Data)} {h : Hub}
      (run : Played n h₀ ops outs h) : Played n h₀ ops outs (h.refresh n).1

/-! ## What every step preserves -/

open Store

/-- The current storage of a state is separate data that hold `t`, up to the kind of mappings. -/
structure Tracks (n : Nat) (t : Data) (h : Hub) : Prop where
  lt_size : n < h.states.size
  silent : (h.state n).subscribers = []
  isFinite : h.store.IsFinite (h.state n).storage.root
  isData : h.store.IsData (h.state n).storage.root
  separate : h.store.Separate (h.state n).storage.root
  tree : (h.store.tree (h.state n).storage.root).plain = t

variable {n : Nat} {h h₀ : Hub} {t : Data} {key : Atom} {copy : Nat}

theorem Tracks.grows (ht : Tracks n t h) {s : Store} (hg : h.store.Grows s) :
    Tracks n t { h with store := s } := by
  have hk : Keeps h.store s (h.state n).storage.root := hg.keeps ht.isFinite.closed
  exact ⟨ht.lt_size, ht.silent, hk.isFinite ht.isFinite, hk.isData ht.isData,
    hk.separate ht.separate, by rw [← ht.tree]; exact congrArg Data.plain (hk.tree ht.isFinite)⟩

/-- Installing a snapshot succeeds and changes nothing but the kind of mappings. -/
theorem Tracks.refresh (ht : Tracks n t h) :
    Tracks n t (h.refresh n).1 ∧ h.store.Grows (h.refresh n).1.store ∧
      ∃ st, (h.refresh n).2 = .ok st := by
  obtain ⟨⟨s, w⟩, hc⟩ := clone_isOk ht.isFinite ht.isData
  obtain ⟨hg, hw⟩ := clone_spec ht.isData hc
  rw [Hub.refresh_of_silent ht.silent, Hub.install_of_ok hc]
  have hroot : ((h.withSnapshot n s w).state n).storage.root = w := by
    rw [Hub.withSnapshot_state ht.lt_size]
    rfl
  have hk : Keeps s (h.withSnapshot n s w).store w := fun _ _ => rfl
  refine ⟨⟨?_, ?_, ?_, ?_, ?_, ?_⟩, hg, _, rfl⟩
  · simpa [Hub.withSnapshot] using ht.lt_size
  · rw [Hub.withSnapshot_subscribers, ht.silent]
  · rw [hroot]
    exact hk.isFinite hw.isCopy.isFinite
  · rw [hroot]
    exact hk.isData (hw.isData ht.isData)
  · rw [hroot]
    exact hk.separate hw.separate
  · rw [hroot, hk.tree hw.isCopy.isFinite, hw.isCopy.tree, Data.plain_plain, ht.tree]

/-- The answer of a call does not depend on whether it installs a snapshot. -/
theorem Tracks.answerAfter {α : Type} (ht : Tracks n t h) (force : Bool) (a : α) :
    Tracks n t (Hub.answerAfter Hub.refresh n force h a).1 ∧
      h.store.Grows (Hub.answerAfter Hub.refresh n force h a).1.store ∧
      (Hub.answerAfter Hub.refresh n force h a).2 = .ok a := by
  unfold Hub.answerAfter
  cases force with
  | false => exact ⟨ht, Grows.refl _, rfl⟩
  | true =>
    obtain ⟨hr, hg, st, hst⟩ := ht.refresh
    simp only [if_true]
    rcases hcall : h.refresh n with ⟨h', r⟩
    rw [hcall] at hr hg hst
    simp only at hst
    subst hst
    exact ⟨hr, hg, rfl⟩

/-- Setting a value that was just made does to the contents what it does to a tree. -/
theorem Tracks.setIn (ht : Tracks n t h) {v : Value}
    (hv : h.store.Fresh (h.state n).storage.root v) (hk : isScalar key = true) (copy : Nat) :
    Tracks n (t.setAt key (h.store.tree v).plain).1 (h.setIn n (.atom key copy) v).1 ∧
      (h.setIn n (.atom key copy) v).2 = (t.setAt key (h.store.tree v).plain).2 := by
  obtain ⟨hf, hs, hset⟩ := Storage.set_spec ht.isFinite ht.separate hv.unshared.isFinite
    hv.unshared.separate hv.apart hk copy
  have he := (h.state n).storage.set_edit h.store (.atom key copy) v
  have hplain := Data.setAt_plain (h.store.tree (h.state n).storage.root) (h.store.tree v) key
  rw [ht.tree, hset] at hplain
  rw [hplain]
  exact ⟨⟨ht.lt_size, ht.silent, hf, he.isData ht.isData ht.isData hv.isData, hs, rfl⟩, rfl⟩

theorem Tracks.deleteIn (ht : Tracks n t h) (key : Atom) (copy : Nat) (keep : Choice) :
    Tracks n (t.deleteAt key keep.yes).1 (h.deleteIn n (.atom key copy) keep).1 ∧
      (∀ v, (h.deleteIn n (.atom key copy) keep).2 = .ok v →
        (h.deleteIn n (.atom key copy) keep).1.store.IsFinite v) ∧
      ((h.deleteIn n (.atom key copy) keep).2.map
        (h.deleteIn n (.atom key copy) keep).1.store.tree).map Data.plain =
        (t.deleteAt key keep.yes).2 := by
  obtain ⟨hf, hs, hold, hdel⟩ := Storage.delete_spec ht.isFinite ht.separate key copy keep
  have he := (h.state n).storage.delete_edit h.store (.atom key copy) keep
  have hplain := Data.deleteAt_plain (h.store.tree (h.state n).storage.root) key keep.yes
  rw [ht.tree, hdel] at hplain
  rw [hplain]
  exact ⟨⟨ht.lt_size, ht.silent, hf, he.isData ht.isData ht.isData (isData_atom rfl 0), hs, rfl⟩,
    hold, rfl⟩

theorem Tracks.setValue (ht : Tracks n t h) {v : Value}
    (hv : h.store.Fresh (h.state n).storage.root v) (hk : isScalar key = true) (copy : Nat)
    (force : Bool) :
    Tracks n (t.setAt key (h.store.tree v).plain).1 (h.setValue n (.atom key copy) v force).1 ∧
      (h.setValue n (.atom key copy) v force).2 = (t.setAt key (h.store.tree v).plain).2 := by
  obtain ⟨hset, hout⟩ := ht.setIn hv hk copy
  unfold Hub.setValue Hub.setWith
  rcases hcall : h.setIn n (.atom key copy) v with ⟨h', _ | _⟩
  · rw [hcall] at hset hout
    exact ⟨hset, hout⟩
  · rw [hcall] at hset hout
    obtain ⟨hans, -, hok⟩ := hset.answerAfter force ()
    exact ⟨hans, hok.trans hout⟩

theorem Tracks.deleteValue (ht : Tracks n t h) (key : Atom) (copy : Nat) (keep : Choice)
    (force : Bool) :
    Tracks n (t.deleteAt key keep.yes).1 (h.deleteValue n (.atom key copy) keep force).1 ∧
      ((h.deleteValue n (.atom key copy) keep force).2.map
        (h.deleteValue n (.atom key copy) keep force).1.store.tree).map Data.plain =
        (t.deleteAt key keep.yes).2 := by
  obtain ⟨hdel, hold, hout⟩ := ht.deleteIn key copy keep
  unfold Hub.deleteValue Hub.deleteWith
  rcases hcall : h.deleteIn n (.atom key copy) keep with ⟨h', _ | removed⟩
  · rw [hcall] at hdel hout
    exact ⟨hdel, hout⟩
  · rw [hcall] at hdel hold hout
    obtain ⟨hans, hg, hok⟩ := hdel.answerAfter force removed
    refine ⟨hans, ?_⟩
    have hfin : h'.store.IsFinite removed := hold removed rfl
    simp only [hok, Except.map]
    rw [(hg.keeps hfin.closed).tree hfin]
    exact hout

/-! ## Runs -/

/-- A run does to the contents of the storage what its operations do to a tree. -/
theorem Played.tracks {ops : List Op} {outs : List (Except Fault Data)}
    (run : Played n h₀ ops outs h) (ht : Tracks n t h₀) :
    Tracks n (t.performAll (ops.map Op.plain)).1 h ∧
      outs.map (Except.map Data.plain) = (t.performAll (ops.map Op.plain)).2 := by
  induction run with
  | start => exact ⟨ht, rfl⟩
  | refresh run ih => exact ⟨ih.1.refresh.1, ih.2⟩
  | @get ops outs h run key scalar copy ih =>
    obtain ⟨ih, houts⟩ := ih
    have hget : ((h.getValue n (.atom key copy)).map h.store.tree).map Data.plain =
        ((t.performAll (ops.map Op.plain)).1.perform (.get key)).2 := by
      have hplain := Data.perform_plain (h.store.tree (h.state n).storage.root) (.get key)
      rw [ih.tree] at hplain
      rw [show Op.get key = (Op.get key).plain from rfl, hplain]
      exact congrArg (Except.map Data.plain) (Storage.get_spec ih.isFinite scalar copy)
    rw [List.map_append, List.map_append, List.map_singleton, List.map_singleton,
      Data.performAll_concat]
    exact ⟨ih, by rw [houts, hget]; rfl⟩
  | @set ops outs h s v run key scalar copy grows fresh force ih =>
    obtain ⟨ih, houts⟩ := ih
    obtain ⟨hset, hout⟩ := (ih.grows grows).setValue fresh scalar copy force
    rw [List.map_append, List.map_append, List.map_singleton, List.map_singleton,
      Data.performAll_concat]
    refine ⟨hset, ?_⟩
    rw [houts, hout]
    simp only [Op.plain, Data.perform]
    cases (Data.setAt _ _ _).2 <;> rfl
  | @delete ops outs h run key scalar copy keep force ih =>
    obtain ⟨ih, houts⟩ := ih
    obtain ⟨hdel, hout⟩ := ih.deleteValue key copy keep force
    rw [List.map_append, List.map_append, List.map_singleton, List.map_singleton,
      Data.performAll_concat]
    exact ⟨hdel, by rw [houts, hout]; rfl⟩

/-- Two runs of the same operations on a state whose storage is unshared data have the same outcomes
and leave equal contents behind, the order of keys included, wherever snapshots are installed in
them; mappings count as equal to what a snapshot makes of them. -/
theorem snapshots_transparent {ops : List Op} {outs outs' : List (Except Fault Data)} {h h' : Hub}
    (hn : n < h₀.states.size) (hs : (h₀.state n).subscribers = [])
    (hd : h₀.store.IsData (h₀.state n).storage.root)
    (hu : h₀.store.Unshared (h₀.state n).storage.root)
    (run : Played n h₀ ops outs h) (run' : Played n h₀ ops outs' h') :
    outs.map (Except.map Data.plain) = outs'.map (Except.map Data.plain) ∧
      (h.store.tree (h.state n).storage.root).plain =
        (h'.store.tree (h'.state n).storage.root).plain ∧
      (h.state n).subscribers = (h'.state n).subscribers := by
  have ht : Tracks n (h₀.store.tree (h₀.state n).storage.root).plain h₀ :=
    ⟨hn, hs, hu.isFinite, hd, hu.separate, rfl⟩
  obtain ⟨htracks, houts⟩ := run.tracks ht
  obtain ⟨htracks', houts'⟩ := run'.tracks ht
  exact ⟨houts.trans houts'.symm, htracks.tree.trans htracks'.tree.symm,
    htracks.silent.trans htracks'.silent.symm⟩

/-- A list is set and an item of it read, once without and once with two snapshots between. -/
theorem snapshots_transparent_to_list :
    ∃ outs outs' h h',
      Played 0 (Hub.empty.newState .none).1
        [.set (.text "a") (.list [.leaf (.int 1)]), .get (.text "a[0]")] outs h ∧
      Played 0 (Hub.empty.newState .none).1
        [.set (.text "a") (.list [.leaf (.int 1)]), .get (.text "a[0]")] outs' h' ∧
      (h.state 0).version = 0 ∧ (h'.state 0).version = 2 ∧
      outs.map (Except.map Data.plain) = outs'.map (Except.map Data.plain) ∧
      (h.store.tree (h.state 0).storage.root).plain =
        (h'.store.tree (h'.state 0).storage.root).plain ∧
      (h.state 0).subscribers = (h'.state 0).subscribers := by
  have run₀ : Played 0 (Hub.empty.newState .none).1 [] [] (Hub.empty.newState .none).1 := .start
  have hroot : (Hub.empty.newState .none).1.store.IsFinite
      ((Hub.empty.newState .none).1.state 0).storage.root := by decide +kernel
  have hfin : ((Hub.empty.newState .none).1.store.alloc (.list [.ofAtom (.int 1)])).1.IsFinite
      (.ref ⟨1⟩) := by decide +kernel
  have fresh : ((Hub.empty.newState .none).1.store.alloc (.list [.ofAtom (.int 1)])).1.Fresh
      ((Hub.empty.newState .none).1.state 0).storage.root (.ref ⟨1⟩) := by
    refine ⟨hfin.isData_iff.2 (by decide +kernel), by decide +kernel, ?_⟩
    exact apart_of_disjoint hfin (by decide +kernel) (List.disjoint_left.2 (by decide +kernel))
  have run := (run₀.set (.text "a") rfl 0 (grows_alloc _ _) fresh false).get (.text "a[0]") rfl 0
  have run' := (run₀.set (.text "a") rfl 0 (grows_alloc _ _) fresh true).refresh.get
    (.text "a[0]") rfl 0
  exact ⟨_, _, _, _, run, run', by decide +kernel, by decide +kernel,
    snapshots_transparent (by decide) rfl (hroot.isData_iff.2 (by decide +kernel))
      (by decide +kernel) run run'⟩

end PathStore
