import PathStore.Hub.Notify
import PathStore.Proofs.Copies
import PathStore.Proofs.Objects

/-!
# Calls on a state without subscribers

Putting a value into a storage and taking one out are edits below its root (`Storage.set_edit`,
`Storage.delete_edit`).  Where nobody has subscribed to a state, refreshing it is installing a
snapshot (`Hub.refresh_of_silent`): the state gets the storage over the copy of its root and the next
version number (`Hub.install_of_ok`), or nothing happens because there is no copy
(`Hub.install_of_error`).
-/

namespace PathStore

/-! ## Edits of a storage -/

namespace Storage

theorem set_edit (st : Storage) (s : Store) (key new : Value) :
    s.Edit (st.set s key new).store st.root new := by
  rcases st.set_store_eq s key new with h | ⟨path, h⟩ <;> rw [h]
  · exact Store.Edit.refl s st.root new
  · exact Store.write_edit s st.root path new

theorem delete_edit (st : Storage) (s : Store) (key : Value) (keep : Choice) :
    s.Edit (st.delete s key keep).store st.root .none := by
  rcases st.delete_store_eq s key keep with h | ⟨path, old, h⟩
  · rw [h]
    exact Store.Edit.refl s st.root .none
  · exact Store.remove_edit h

end Storage

/-! ## Installing -/

namespace Hub

variable {h : Hub} {n : Nat}

theorem install_of_error {fault : Fault}
    (hc : h.store.clone (h.state n).storage.root = .error fault) :
    h.install n = (h, .error fault) := by
  unfold install attempt
  simp only [Storage.snapshot, Storage.copy, hc, Except.map]

/-- The hub after a storage over `root` has been installed as the current one of a state. -/
def withSnapshot (h : Hub) (n : Nat) (s : Store) (root : Value) : Hub :=
  { h with
    store := (Storage.ofRoot s root).1
    states := h.states.modify n fun st =>
      { st with storage := (Storage.ofRoot s root).2, version := (h.state n).version + 1 }
    log := h.log ++
      [⟨.debug, "Installed storage snapshot version " ++ Text.decimal ((h.state n).version + 1)⟩] }

theorem install_of_ok {s : Store} {w : Value}
    (hc : h.store.clone (h.state n).storage.root = .ok (s, w)) :
    h.install n = (h.withSnapshot n s w, .ok (Storage.ofRoot s w).2) := by
  unfold install attempt
  simp only [Storage.snapshot, Storage.copy, hc, Except.map]
  rfl

theorem withSnapshot_state (hn : n < h.states.size) (s : Store) (root : Value) :
    (h.withSnapshot n s root).state n =
      { h.state n with
        storage := (Storage.ofRoot s root).2, version := (h.state n).version + 1 } := by
  simp [withSnapshot, state, hn, Array.getElem_modify]

theorem withSnapshot_subscribers (s : Store) (root : Value) :
    ((h.withSnapshot n s root).state n).subscribers = (h.state n).subscribers := by
  simp only [withSnapshot, state, Array.getElem?_modify]
  cases h.states[n]? <;> simp

/-- Refreshing a state that nobody has subscribed to is installing a snapshot. -/
theorem refresh_of_silent (hs : (h.state n).subscribers = []) : h.refresh n = h.install n := by
  have hround : ∀ again : Refresher, round again h n = h.install n := fun again => by
    unfold round
    cases hc : h.store.clone (h.state n).storage.root with
    | error fault => rw [install_of_error hc]
    | ok p =>
      obtain ⟨s, w⟩ := p
      rw [install_of_ok hc]
      simp only [withSnapshot_subscribers, hs, deliver]
  unfold refresh
  cases h.pending with
  | zero => exact hround _
  | succ depth => exact hround _

end Hub

end PathStore
