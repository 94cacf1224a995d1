import PathStore.Proofs.Loading
import PathStore.Proofs.Objects
import PathStore.Proofs.Outcomes
import PathStore.Proofs.Transparent
import PathStore.SharedState

/-!
# The shared state under calls

A state that is shared through a registry, and to which nobody has subscribed, is told by its contents
and its version (`Shares`).  Setting and deleting in it do to the contents what they do to a tree and
leave the version alone (`Shares.setIn`, `Shares.deleteIn`), installing a snapshot leaves the contents
alone and counts the version up (`Shares.refresh`), and the registry gives the same state all the time
(`Shares.resolve`).  A state that was provided over plain contents begins this way
(`provideShared_shares`).
-/

namespace PathStore

open Store

/-- State `n` is shared through registry `r`.  Its storage is separate data that hold the plain contents
`t`, its version is `v`, and nobody has subscribed to it. -/
structure Shares (r n : Nat) (t : Data) (v : Nat) (h : Hub) : Prop where
  tracks : Tracks n t h
  tree : h.store.tree (h.state n).storage.root = t
  version : (h.state n).version = v
  registered : (h.store.registry r).ready.lookup sharedKey = some (.object .state n)

variable {r n v : Nat} {t t' new : Data} {h h' : Hub}

theorem Shares.plain (hs : Shares r n t v h) : t.plain = t := by
  have htree := hs.tracks.tree
  rwa [hs.tree] at htree

/-- The registry gives the state, and nothing changes by asking for it. -/
theorem Shares.resolve (hs : Shares r n t v h) :
    h.resolve r sharedKey = (h, .ok (.object .state n)) := by
  have hwith : ∀ again : Hub.Resolver,
      Hub.resolveWith again h r sharedKey = (h, .ok (.object .state n)) := fun again => by
    rw [Hub.resolveWith, hs.registered]
  unfold Hub.resolve
  cases h.unmade with
  | zero => exact hwith _
  | succ depth => exact hwith _

/-! ## Edits -/

/-- What is left of a state when only the cells below its root have changed. -/
theorem Shares.edit (hs : Shares r n t v h) (hst : h'.states = h.states)
    (hreg : h'.store.registries = h.store.registries)
    (hf : h'.store.IsFinite (h.state n).storage.root)
    (hd : h'.store.IsData (h.state n).storage.root)
    (hsep : h'.store.Separate (h.state n).storage.root)
    (htree : h'.store.tree (h.state n).storage.root = t') (hp : t'.plain = t') :
    Shares r n t' v h' := by
  have hstate : h'.state n = h.state n := by rw [Hub.state, hst, Hub.state]
  have hregistry : h'.store.registry r = h.store.registry r := by rw [registry, hreg, registry]
  refine ⟨⟨hst ▸ hs.tracks.lt_size, ?_, ?_, ?_, ?_, ?_⟩, ?_, ?_, ?_⟩
  · rw [hstate, hs.tracks.silent]
  · rwa [hstate]
  · rwa [hstate]
  · rwa [hstate]
  · rw [hstate, htree, hp]
  · rw [hstate, htree]
  · rw [hstate, hs.version]
  · rw [hregistry, hs.registered]

theorem Shares.grows (hs : Shares r n t v h) (hst : h'.states = h.states)
    (hreg : h'.store.registries = h.store.registries) (hg : Grows h.store h'.store) :
    Shares r n t v h' := by
  have hk : Keeps h.store h'.store (h.state n).storage.root := hg.keeps hs.tracks.isFinite.closed
  exact hs.edit hst hreg (hk.isFinite hs.tracks.isFinite) (hk.isData hs.tracks.isData)
    (hk.separate hs.tracks.separate) ((hk.tree hs.tracks.isFinite).trans hs.tree) hs.plain

/-- Setting a value made of what JSON can carry does to the contents what it does to a tree. -/
theorem Shares.setIn (hs : Shares r n t v h) (hj : new.IsJson) (key : Text) :
    Shares r n (t.setAt (.text key) new).1 v
        ({ h with store := (h.store.load new).1 }.setIn n (.text key) (h.store.load new).2).1 ∧
      ({ h with store := (h.store.load new).1 }.setIn n (.text key) (h.store.load new).2).2 =
        (t.setAt (.text key) new).2 := by
  obtain ⟨hg, hl⟩ := load_spec hj h.store
  have hgrown : Shares r n t v { h with store := (h.store.load new).1 } :=
    hs.grows rfl (load_sameObjects h.store new).registries hg
  have hd : (h.store.load new).1.IsData (h.store.load new).2 := by
    rw [hl.isCopy.isFinite.isData_iff, hl.isCopy.tree]
    exact hj.allAtoms
  have hapart := (apart_of_fresh hg hs.tracks.isFinite hl.isCopy.fresh).symm
  generalize h.store.load new = made at *
  obtain ⟨s, w⟩ := made
  obtain ⟨hf, hsep, hset⟩ := @Storage.set_spec s (h.state n).storage (.text key) w
    hgrown.tracks.isFinite hgrown.tracks.separate hl.isCopy.isFinite hl.separate hapart rfl 0
  have he := (h.state n).storage.set_edit s (.text key) w
  have htree : s.tree (h.state n).storage.root = t := hgrown.tree
  rw [htree, hl.isCopy.tree] at hset
  have hplain := Data.setAt_plain t new (.text key)
  rw [hgrown.plain, hj.plain] at hplain
  rw [hset] at hplain ⊢
  refine ⟨hgrown.edit rfl ((h.state n).storage.set_sameObjects s (.text key) w).registries hf
    (he.isData hgrown.tracks.isData hgrown.tracks.isData hd) hsep rfl ?_, rfl⟩
  exact (congrArg Prod.fst hplain).symm

theorem Shares.deleteIn (hs : Shares r n t v h) (key : Text) (keep : Choice) :
    Shares r n (t.deleteAt (.text key) keep.yes).1 v (h.deleteIn n (.text key) keep).1 ∧
      (∀ w, (h.deleteIn n (.text key) keep).2 = .ok w →
        (h.deleteIn n (.text key) keep).1.store.IsFinite w) ∧
      (h.deleteIn n (.text key) keep).2.map (h.deleteIn n (.text key) keep).1.store.tree =
        (t.deleteAt (.text key) keep.yes).2 := by
  obtain ⟨hf, hsep, hold, hdel⟩ := @Storage.delete_spec h.store (h.state n).storage
    hs.tracks.isFinite hs.tracks.separate (.text key) 0 keep
  have he := (h.state n).storage.delete_edit h.store (.text key) keep
  rw [hs.tree] at hdel
  have hplain := Data.deleteAt_plain t (.text key) keep.yes
  rw [hs.plain] at hplain
  rw [hdel] at hplain ⊢
  refine ⟨hs.edit rfl ((h.state n).storage.delete_sameObjects h.store (.text key) keep).registries hf
    (he.isData hs.tracks.isData hs.tracks.isData (isData_atom rfl 0)) hsep rfl ?_, hold, rfl⟩
  exact (congrArg Prod.fst hplain).symm

/-! ## Snapshots -/

/-- Installing a snapshot succeeds and changes nothing but the version. -/
theorem Shares.refresh (hs : Shares r n t v h) :
    Shares r n t (v + 1) (h.refresh n).1 ∧ h.store.Grows (h.refresh n).1.store ∧
      ∃ st, (h.refresh n).2 = .ok st := by
  obtain ⟨htracks, hg, hok⟩ := hs.tracks.refresh
  obtain ⟨⟨s, w⟩, hc⟩ := clone_isOk hs.tracks.isFinite hs.tracks.isData
  obtain ⟨-, hw⟩ := clone_spec hs.tracks.isData hc
  refine ⟨⟨htracks, ?_, ?_, ?_⟩, hg, hok⟩ <;>
    rw [Hub.refresh_of_silent hs.tracks.silent, Hub.install_of_ok hc]
  · have hk : Keeps s (h.withSnapshot n s w).store w := fun _ _ => rfl
    rw [Hub.withSnapshot_state hs.tracks.lt_size]
    exact (hk.tree hw.isCopy.isFinite).trans (by rw [hw.isCopy.tree, hs.tree, hs.plain])
  · rw [Hub.withSnapshot_state hs.tracks.lt_size, hs.version]
  · have hsame : s.registry r = h.store.registry r := by
      rw [registry, (cloneTo_sameObjects hs.tracks.isData hc).registries, registry]
    exact (congrArg (fun r : Registry => r.ready.lookup sharedKey) hsame).trans hs.registered

/-! ## Providing -/

/-- A state that is opened over plain contents and registered is shared. -/
theorem newState_shares {root : Value} (hr : r < h.store.registries.size) (hn : root.isNone = false)
    (hf : h.store.IsFinite root) (hd : h.store.IsData root) (hsep : h.store.Separate root)
    (hp : (h.store.tree root).plain = h.store.tree root) :
    Shares r h.states.size (h.store.tree root) 0
      ((h.newState root).1.modifyRegistry r fun reg =>
        reg.register sharedKey (.object .state h.states.size)) := by
  have hroot : h.rootOrEmpty root = (h, root) := by simp [Hub.rootOrEmpty, hn]
  unfold Hub.newState Hub.newStorage
  rw [hroot]
  generalize hh : Hub.modifyRegistry _ _ _ = h'
  have hk : Keeps h.store h'.store root := hh ▸ fun _ _ => rfl
  have hstate : h'.state h.states.size = ⟨(Storage.ofRoot h.store root).2, 0, []⟩ := by
    rw [← hh]
    simp [Hub.state, Hub.modifyRegistry]
  have hstates : h'.states.size = h.states.size + 1 := by
    rw [← hh]
    simp [Hub.modifyRegistry]
  have hreg : h'.store.registry r =
      (h.store.registry r).register sharedKey (.object .state h.states.size) := by
    rw [← hh]
    simp [Hub.modifyRegistry, modifyRegistry, registry, Storage.ofRoot, hr, Array.getElem_modify]
  refine ⟨⟨by omega, by rw [hstate], ?_, ?_, ?_, ?_⟩, ?_, by rw [hstate], ?_⟩
  · rw [hstate]
    exact hk.isFinite hf
  · rw [hstate]
    exact hk.isData hd
  · rw [hstate]
    exact hk.separate hsep
  · rw [hstate]
    exact (congrArg Data.plain (hk.tree hf)).trans hp
  · rw [hstate]
    exact hk.tree hf
  · rw [hreg, (Registry.lookup_register _ _ _).1]

/-- A state that is provided over plain contents is shared; where these are empty, a new mapping is
opened in their place, which holds the same. -/
theorem provideShared_shares {root : Value} (hr : r < h.store.registries.size)
    (hf : h.store.IsFinite root) (hd : h.store.IsData root) (hsep : h.store.Separate root)
    (hm : (h.store.tree root).isMapping = true)
    (hp : (h.store.tree root).plain = h.store.tree root) :
    ∃ h', h.provideShared r root = (h', .ok h.states.size) ∧
      Shares r h.states.size (h.store.tree root) 0 h' := by
  cases root with
  | atom a copy => cases hm
  | ref p =>
    obtain ⟨cell, hc⟩ := hf.get?
    have htree := tree_ref hf hc
    cases cell with
    | mapping kind es =>
      have hfalsy : h.store.isFalsy (.ref p) = .ok (es.length == 0) := by
        simp [isFalsy, count, countTo, hc, Cell.count, Except.map]
      unfold Hub.provideShared
      rw [hfalsy]
      cases es with
      | cons e es => exact ⟨_, rfl, newState_shares hr rfl hf hd hsep hp⟩
      | nil =>
        have hempty : h.store.tree (.ref p) = .mapping .plain [] := by
          rw [← hp, htree]
          rfl
        have hl : Loaded h.store (h.store.alloc (.mapping .plain [])).1 (.mapping .plain [])
            (h.store.alloc (.mapping .plain [])).2 :=
          (alloc_loaded rfl (Grows.refl h.store) .nil .nil rfl).2
        have hshares := @newState_shares r
          { h with store := (h.store.alloc (.mapping .plain [])).1 }
          (h.store.alloc (.mapping .plain [])).2 hr rfl hl.isCopy.isFinite
          (hl.isCopy.isFinite.isData_iff.2 (by rw [hl.isCopy.tree]; rfl)) hl.separate
          (by rw [hl.isCopy.tree]; rfl)
        rw [hl.isCopy.tree] at hshares
        exact ⟨_, rfl, hempty.symm ▸ hshares⟩
    | _ =>
      rw [htree] at hm
      cases hm

end PathStore
