import PathStore.Proofs.Writes
import PathStore.Proofs.Written
import PathStore.Storage

/-!
# Operations of a storage

What getting, setting and deleting under a key do to a storage is told by the tree of its root alone
(`Data.perform`): below a root that is finite and separate, the outcome is that of the tree, and the
root holds what the tree has become (`Storage.get_spec`, `Storage.set_spec`, `Storage.delete_spec`).
Keys are atoms other than objects of the library, which mean the same in every store.
-/

namespace PathStore

/-! ## Operations on trees -/

/-- An operation of a caller. -/
inductive Op where
  | get (key : Atom)
  | set (key : Atom) (new : Data)
  | delete (key : Atom) (keep : Choice)

/-- The path that a key stands for. -/
def Atom.path : Atom → Except Fault Path
  | text key =>
    if Text.trim key = [] then .error (.blankKey key)
    else
      match Path.read (Text.trim key) with
      | .error fault => .error fault
      | .ok path => if path = [] then .error (.noSegments key) else .ok path
  | key =>
    match key.shown with
    | .error fault => .error fault
    | .ok shown => .error (.blankKey shown)

namespace Data

/-- Puts contents under a key; the tree that is left, and the outcome. -/
def setAt (t : Data) (key : Atom) (new : Data) : Data × Except Fault Unit :=
  match key.path with
  | .error fault => (t, .error fault)
  | .ok path => t.write path new

/-- Takes the contents under a key out; the tree that is left, and the outcome. -/
def deleteAt (t : Data) (key : Atom) (keep : Bool) : Data × Except Fault Data :=
  match Storage.usableKey? (.ofAtom key) with
  | none => (t, .ok nothing)
  | some trimmed =>
    match (Path.read trimmed).bind (t.remove keep) with
    | .error fault => (t, .error fault)
    | .ok (t', old) => (t', .ok old)

/-- What an operation makes of a tree, and its outcome; setting gives nothing. -/
def perform (t : Data) : Op → Data × Except Fault Data
  | .get key => (t, key.path.bind t.read)
  | .set key new => ((t.setAt key new).1, (t.setAt key new).2.map fun _ => nothing)
  | .delete key keep => t.deleteAt key keep.yes

/-- What operations one after the other make of a tree, and their outcomes. -/
def performAll (t : Data) : List Op → Data × List (Except Fault Data)
  | [] => (t, [])
  | op :: ops =>
    let below := (t.perform op).1.performAll ops
    (below.1, (t.perform op).2 :: below.2)

theorem performAll_concat (t : Data) (ops : List Op) (op : Op) :
    t.performAll (ops ++ [op]) = (((t.performAll ops).1.perform op).1,
      (t.performAll ops).2 ++ [((t.performAll ops).1.perform op).2]) := by
  induction ops generalizing t with
  | nil => rfl
  | cons o ops ih =>
    rw [List.cons_append, performAll, ih]
    rfl

end Data

/-- The path of a key is a written one. -/
theorem Atom.isWritten_of_path {key : Atom} {path : Path} (h : key.path = .ok path) :
    ∀ seg ∈ path, seg.IsWritten := by
  cases key with
  | text key =>
    simp only [Atom.path] at h
    split at h
    · cases h
    · cases hp : Path.read (Text.trim key) with
      | error fault => simp [hp] at h
      | ok path' =>
        simp only [hp] at h
        split at h
        · cases h
        · cases h
          exact Path.isWritten_of_read hp
  | _ =>
    simp only [Atom.path] at h
    split at h <;> cases h

/-- The path of a key has a segment. -/
theorem Atom.path_ne_nil {key : Atom} {path : Path} (h : key.path = .ok path) : path ≠ [] := by
  cases key with
  | text key =>
    simp only [Atom.path] at h
    split at h
    · cases h
    · split at h
      · cases h
      · split at h
        · cases h
        · next hne =>
          cases h
          exact hne
  | _ =>
    simp only [Atom.path] at h
    split at h <;> cases h

/-! ## Operations on storages -/

namespace Storage

open Store

variable {s : Store} {st : Storage} {key : Atom} {new : Value}

/-- An atom that is no object is shown alike in every store. -/
theorem shown_scalar (hk : isScalar key = true) (copy : Nat) :
    s.shown (.atom key copy) = key.shown := by
  unfold shown
  have hpos : 0 < (s.size + 1) * (s.extent + 1) := Nat.mul_pos (by omega) (by omega)
  obtain ⟨d, hd⟩ : ∃ d, (s.size + 1) * (s.extent + 1) = d + 1 := ⟨_, (Nat.sub_add_cancel hpos).symm⟩
  rw [hd]
  cases key with
  | object kind number => cases hk
  | _ => rfl

theorem keyPath_scalar (hk : isScalar key = true) (copy : Nat) :
    keyPath s (.atom key copy) = key.path := by
  have hshown := @shown_scalar s key hk copy
  cases hout : key.shown with
  | error fault =>
    rw [hout] at hshown
    cases key with
    | text t => rfl
    | object kind number => cases hk
    | _ => simp only [keyPath, hshown, Atom.path, hout]
  | ok text =>
    rw [hout] at hshown
    cases key with
    | text t => rfl
    | object kind number => cases hk
    | _ => simp only [keyPath, hshown, Atom.path, hout]

theorem get_spec (hf : s.IsFinite st.root) (hk : isScalar key = true) (copy : Nat) :
    (st.get s (.atom key copy)).map s.tree = key.path.bind (s.tree st.root).read := by
  unfold get
  rw [keyPath_scalar hk]
  cases key.path with
  | error fault => rfl
  | ok path => exact (read_tree hf path).symm

theorem set_spec (hf : s.IsFinite st.root) (hs : s.Separate st.root) (hn : s.IsFinite new)
    (hns : s.Separate new) (ha : s.Apart Cell.isContainer new st.root) (hk : isScalar key = true)
    (copy : Nat) :
    (st.set s (.atom key copy) new).store.IsFinite st.root ∧
      (st.set s (.atom key copy) new).store.Separate st.root ∧
      (s.tree st.root).setAt key (s.tree new) =
        ((st.set s (.atom key copy) new).store.tree st.root,
          (st.set s (.atom key copy) new).result) := by
  have hkey := keyPath_scalar (s := s) hk copy
  unfold Data.setAt
  cases hp : key.path with
  | error fault =>
    rw [st.set_of_keyPath_error (hkey.trans hp)]
    exact ⟨hf, hs, rfl⟩
  | ok path =>
    obtain ⟨hstore, hresult⟩ := st.set_of_keyPath (hkey.trans hp) new
    rw [hstore, hresult]
    obtain ⟨hwf, hws, hwt⟩ := write_spec hf hs hn ha path
    exact ⟨hwf, hws hns, hwt⟩

theorem delete_spec (hf : s.IsFinite st.root) (hs : s.Separate st.root) (key : Atom) (copy : Nat)
    (keep : Choice) :
    (st.delete s (.atom key copy) keep).store.IsFinite st.root ∧
      (st.delete s (.atom key copy) keep).store.Separate st.root ∧
      (∀ v, (st.delete s (.atom key copy) keep).result = .ok v →
        (st.delete s (.atom key copy) keep).store.IsFinite v) ∧
      (s.tree st.root).deleteAt key keep.yes =
        ((st.delete s (.atom key copy) keep).store.tree st.root,
          (st.delete s (.atom key copy) keep).result.map
            (st.delete s (.atom key copy) keep).store.tree) := by
  unfold delete Data.deleteAt
  rw [show usableKey? (.atom key copy) = usableKey? (.ofAtom key) by cases key <;> rfl]
  cases usableKey? (.ofAtom key) with
  | none =>
    refine ⟨hf, hs, fun v hv => ?_, rfl⟩
    cases hv
    exact .atom _ _
  | some trimmed =>
    simp only
    cases Path.read trimmed with
    | error fault => exact ⟨hf, hs, (fun v hv => by cases hv), rfl⟩
    | ok path =>
      simp only [Except.bind]
      have hrem := remove_spec hf hs path keep.yes
      cases hr : s.remove st.root path keep.yes with
      | error fault =>
        rw [hr] at hrem
        simp only at hrem ⊢
        rw [hrem]
        exact ⟨hf, hs, (fun v hv => by cases hv), rfl⟩
      | ok p =>
        obtain ⟨s', old⟩ := p
        rw [hr] at hrem
        obtain ⟨hf', hs', hold, htree⟩ := hrem
        simp only
        rw [htree]
        have hall : ∀ v, Except.ok old = (Except.ok v : Except Fault Value) → s'.IsFinite v := by
          rintro v ⟨⟩
          exact hold
        exact ⟨hf', hs', hall, rfl⟩

end Storage

end PathStore
