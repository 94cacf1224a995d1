import Mathlib
import PathStore.Proofs.Refused

/-!
# What is written is read

After a write that succeeds, a read along the same path comes to the value that was written, itself
and not a copy of it.  A write may make containers on its way, and put a mapping in the place of a
list; in each slot that it goes through it leaves the container that it goes on in
(`Descent.leads`), and below a finite root nothing that it does further down changes that slot again.
So a read goes down the same way, whatever is shared, whatever the names are, and from whichever end
the positions count (`readFrom_writeFrom`).  The same holds of texts for paths, and of the keys of a
storage (`Storage.written_is_read`).
-/

namespace PathStore

namespace Store

variable {s : Store} {cur new : Value} {path before rest : Path}

/-- What was written along a path is read along it. -/
theorem readFrom_writeFrom (hf : s.IsFinite cur) (hne : rest ≠ [])
    (h : (s.writeFrom path before cur new rest).result = .ok ()) (path' before' : Path) :
    (s.writeFrom path before cur new rest).store.readFrom path' before' cur rest = .ok new := by
  induction rest generalizing s before cur before' with
  | nil => exact absurd rfl hne
  | cons seg rest ih =>
    cases rest with
    | nil =>
      obtain ⟨s', ha, hdone⟩ := writeFrom_singleton h
      obtain ⟨r, c, c', rfl, -⟩ := assign_eq_ok ha
      rw [hdone]
      show s'.readFrom path' before' (.ref r) [seg] = .ok new
      rw [readFrom, lookup_assign ha]
      rfl
    | cons next rest =>
      obtain ⟨s₁, child, hdesc, hstore, hbelow⟩ := writeFrom_cons_cons h
      have hleads := hdesc.leads hf
      have hread := ih hleads.child_isFinite (List.cons_ne_nil _ _) hbelow (before' ++ [seg])
      -- what happens below the container does not change the slot that it stands in
      have hslot := hleads.lookup_edit
        (writeFrom_edit s₁ path (before ++ [seg]) child new (next :: rest)) seg
      rw [hstore, readFrom, hslot, hleads.lookup, hleads.cur_isNone]
      exact hread

end Store

namespace Storage

open Store

variable {s : Store} {st : Storage} {key : Value} {path : Path}

/-- Only texts are keys, and what a key stands for does not depend on the store. -/
theorem keyPath_eq_ok (h : keyPath s key = .ok path) :
    path ≠ [] ∧ ∀ s', keyPath s' key = .ok path := by
  unfold keyPath at h
  split at h
  · next t copy =>
    refine ⟨?_, fun s' => by rw [keyPath, h]⟩
    split at h
    · cases h
    · split at h
      · cases h
      · split at h
        · cases h
        · next hne =>
          cases h
          exact hne
  · split at h
    · cases h
    · cases h

/-- Below a finite root, in which containers may be shared, what was written is read: along a path
of any segments, along the path that a text stands for, and under a key. -/
theorem written_is_read (hf : s.IsFinite st.root) (new : Value) :
    (∀ path : Path, path ≠ [] → (s.write st.root path new).result = .ok () →
      (s.write st.root path new).store.read st.root path = .ok new) ∧
    (∀ t : Text, Path.read t ≠ .ok [] → (s.writeText st.root t new).result = .ok () →
      (s.writeText st.root t new).store.readText st.root t = .ok new) ∧
    ∀ key : Value, (st.set s key new).result = .ok () →
      st.get (st.set s key new).store key = .ok new := by
  have hpath : ∀ path : Path, path ≠ [] → (s.write st.root path new).result = .ok () →
      (s.write st.root path new).store.read st.root path = .ok new := by
    intro path hne h
    exact readFrom_writeFrom hf hne h path []
  refine ⟨hpath, ?_, ?_⟩
  · intro t hne h
    unfold writeText at h ⊢
    unfold readText
    cases hp : Path.read t with
    | error fault =>
      rw [hp] at h
      cases h
    | ok path =>
      rw [hp] at h hne
      exact hpath path (fun hnil => hne (congrArg _ hnil)) h
  · intro key h
    cases hk : keyPath s key with
    | error fault =>
      rw [st.set_of_keyPath_error hk] at h
      cases h
    | ok path =>
      obtain ⟨hne, hk'⟩ := keyPath_eq_ok hk
      obtain ⟨hstore, hresult⟩ := st.set_of_keyPath hk new
      rw [hresult] at h
      rw [get, hk', hstore]
      exact hpath path hne h

/-- One list stands under two names.  The root is written into it, below its last item, a list that
becomes a mapping, under a name that is a number and one with a dot; and nothing is put under a key
that leads there as well. -/
theorem written_is_read_shared :
    ∃ (s : Store) (st : Storage),
      s.IsFinite st.root ∧ s.lookup st.root (.key "a") = s.lookup st.root (.key "b") ∧
      s.tree st.root = .mapping .plain [(.text "a", .list [.leaf (.int 1), .list [.list []]]),
        (.text "b", .list [.leaf (.int 1), .list [.list []]])] ∧
      (s.write st.root [.key "b", .index (-1), .key "0", .key "x.y"] st.root).store.read st.root
        [.key "b", .index (-1), .key "0", .key "x.y"] = .ok st.root ∧
      (s.writeText st.root "b[1].x" st.root).store.readText st.root "b[1].x" = .ok st.root ∧
      st.get (st.set s (.text " a[1][0].x ") .none).store (.text " a[1][0].x ") = .ok .none := by
  obtain ⟨s, hs⟩ : ∃ s : Store, s = { Store.empty with cells := #[.list [], .list [.ref ⟨0⟩],
      .list [.ofAtom (.int 1), .ref ⟨1⟩],
      .mapping .plain [(.text "a", .ref ⟨2⟩), (.text "b", .ref ⟨2⟩)]] } := ⟨_, rfl⟩
  have hf : s.IsFinite (Storage.root ⟨.ref ⟨3⟩, 0⟩) := by
    subst hs
    decide +kernel
  have hroot := written_is_read hf (.ref ⟨3⟩)
  refine ⟨s, ⟨.ref ⟨3⟩, 0⟩, hf, ?_, ?_, ?_, ?_, ?_⟩
  · subst hs
    rfl
  · subst hs
    cbv
  · exact hroot.1 _ (List.cons_ne_nil _ _) (by subst hs; cbv)
  · exact hroot.2.1 _ (by cbv; simp) (by subst hs; cbv)
  · exact (written_is_read hf .none).2.2 _ (by subst hs; cbv)

end Storage

end PathStore
