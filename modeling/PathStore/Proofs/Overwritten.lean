import Mathlib
import PathStore.Proofs.ReadBack

/-!
# The last write counts

A write can convert lists, make containers and fill lists up on its way, and a second write along the
same path finds all of that done: it goes into what is there at every level (`passage_of_writeFrom`)
and only puts its value in the place of the first one.  So below a finite root, in which containers
may be shared, writing twice leaves the same store as the second write alone would have left, cell by
cell (`writeFrom_writeFrom`).  Whether a write fails, and how, does not depend on what is put in
(`writeFrom_result_eq`).
-/

namespace PathStore

namespace Store

variable {s s' : Store} {cur child old : Value} {seg next : Segment} {path before rest : Path}
  {fault : Fault}

/-! ## One slot -/

theorem put_put (s : Store) (r : Ref) (c c' : Cell) : (s.put r c).put r c' = s.put r c' := by
  simp only [put, Array.setIfInBounds_setIfInBounds]

/-- Why a slot cannot be assigned to does not depend on what is assigned. -/
theorem assign_error_of_assign_error (h : s.assign cur seg old = .error fault) (new : Value) :
    s.assign cur seg new = .error fault := by
  cases cur with
  | atom a copy => exact h
  | ref r =>
    cases hc : s.get? r with
    | none =>
      simp only [assign, hc] at h ⊢
      exact h
    | some c =>
      simp only [assign, hc] at h ⊢
      cases ha : c.assign old seg with
      | ok c' =>
        rw [ha] at h
        cases h
      | error fault' =>
        rw [ha] at h
        rw [Cell.assign_error_of_assign_error ha new]
        exact h

/-- The last assignment to a slot counts. -/
theorem assign_assign (h : s.assign cur seg old = .ok s') (new : Value) :
    s'.assign cur seg new = s.assign cur seg new := by
  obtain ⟨r, c, c', rfl, hc, hca, rfl⟩ := assign_eq_ok h
  have hc' : (s.put r c').get? r = some c' := get?_put_self hc c'
  simp only [assign, hc, hc', Cell.assign_assign hca]
  cases c.assign new seg with
  | error fault => rfl
  | ok c'' =>
    show Except.ok ((s.put r c').put r c'') = Except.ok (s.put r c'')
    rw [put_put]

/-- A value whose slot was assigned to is gone into as it is. -/
theorem passage_of_assign (h : s.assign cur seg old = .ok s') : s'.passage cur seg = .fits := by
  obtain ⟨r, c, c', rfl, hc, hca, rfl⟩ := assign_eq_ok h
  have hc' : (s.put r c').cell? (.ref r) = some c' := by
    rw [cell?, get?_put_self hc]
  unfold passage
  rw [hc']
  obtain ⟨kind, es, rfl, rfl⟩ | ⟨xs, p, ys, rfl, rfl, -, rfl⟩ := Cell.assign_eq_ok hca
  · rfl
  · rfl

/-! ## A path -/

/-- Whether a write fails, and how, does not depend on what is put in. -/
theorem writeFrom_result_eq (s : Store) (path before : Path) (cur a b : Value) (rest : Path) :
    (s.writeFrom path before cur a rest).result = (s.writeFrom path before cur b rest).result := by
  induction rest generalizing s before cur with
  | nil => rfl
  | cons seg rest ih =>
    cases rest with
    | nil =>
      rw [writeFrom, writeFrom]
      cases ha : s.assign cur seg a with
      | error fault => rw [assign_error_of_assign_error ha b]
      | ok s' =>
        cases hb : s.assign cur seg b with
        | ok s'' => rfl
        | error fault =>
          rw [assign_error_of_assign_error hb a] at ha
          cases ha
    | cons next rest =>
      cases hr : (s.descend path (before ++ [seg]) cur seg next).result with
      | error fault =>
        rw [writeFrom, writeFrom, (Effect.andThen_of_error hr).2, (Effect.andThen_of_error hr).2]
      | ok child =>
        -- both go on from the same container in the same store
        rw [(writeFrom_of_descend hr a rest).2, (writeFrom_of_descend hr b rest).2]
        exact ih _ _ child

/-- After a write that succeeded, the value that it started from is gone into as it is. -/
theorem passage_of_writeFrom (hf : s.IsFinite cur)
    (h : (s.writeFrom path before cur old (seg :: rest)).result = .ok ()) :
    (s.writeFrom path before cur old (seg :: rest)).store.passage cur seg = .fits := by
  cases rest with
  | nil =>
    obtain ⟨s', ha, hdone⟩ := writeFrom_singleton h
    rw [hdone]
    exact passage_of_assign ha
  | cons next rest =>
    obtain ⟨s₁, child, hdesc, hstore, -⟩ := writeFrom_cons_cons h
    have hleads := hdesc.leads hf
    have hslot := hleads.lookup_edit
      (writeFrom_edit s₁ path (before ++ [seg]) child old (next :: rest)) seg
    rw [hstore]
    exact passage_of_lookup (hslot.trans hleads.lookup) (isNone_of_isContainer hleads.isContainer)

/-- The last write along a path counts: it leaves the store that it would have left alone. -/
theorem writeFrom_writeFrom (hf : s.IsFinite cur)
    (h : (s.writeFrom path before cur old rest).result = .ok ()) (new : Value) :
    ((s.writeFrom path before cur old rest).store.writeFrom path before cur new rest).result =
        .ok () ∧
      ((s.writeFrom path before cur old rest).store.writeFrom path before cur new rest).store =
        (s.writeFrom path before cur new rest).store := by
  induction rest generalizing s before cur with
  | nil => exact ⟨rfl, rfl⟩
  | cons seg rest ih =>
    cases rest with
    | nil =>
      obtain ⟨s', ha, hdone⟩ := writeFrom_singleton h
      -- the second write assigns as it would have assigned before the first one
      have hsame : s'.writeFrom path before cur new [seg] =
          s.writeFrom path before cur new [seg] := by
        rw [writeFrom, writeFrom, assign_assign ha new]
        cases hb : s.assign cur seg new with
        | ok s'' => rfl
        | error fault =>
          rw [assign_error_of_assign_error hb old] at ha
          cases ha
      rw [hdone]
      show (s'.writeFrom path before cur new [seg]).result = .ok () ∧
        (s'.writeFrom path before cur new [seg]).store = _
      rw [hsame]
      exact ⟨(writeFrom_result_eq s path before cur new old [seg]).trans h, rfl⟩
    | cons next rest =>
      have hdesc := descent s path (before ++ [seg]) cur seg next
      cases hr : (s.descend path (before ++ [seg]) cur seg next).result with
      | error fault =>
        rw [writeFrom, (Effect.andThen_of_error hr).2] at h
        cases h
      | ok child =>
        rw [hr] at hdesc
        have hleads := hdesc.leads hf
        rw [(writeFrom_of_descend hr old rest).2] at h
        rw [(writeFrom_of_descend hr old rest).1, (writeFrom_of_descend hr new rest).1]
        generalize (s.descend path (before ++ [seg]) cur seg next).store = s₁ at *
        -- after the first write the second one finds the same container in the slot
        have hslot := hleads.lookup_edit
          (writeFrom_edit s₁ path (before ++ [seg]) child old (next :: rest)) seg
        rw [writeFrom_of_fits (hslot.trans hleads.lookup)
          (passage_of_writeFrom hleads.child_isFinite h)]
        exact ih hleads.child_isFinite h

end Store

namespace Storage

open Store

variable {s : Store} {st : Storage}

/-- Below a finite root, in which containers may be shared, the last value that is set under a key
counts, whatever the values are.  Setting one fails exactly where setting the other does, with the
same error.  Where setting succeeds, the store that the second value leaves is, cell by cell, the one
that it would have left without the first: the tree with its shapes, the lengths of its lists and the
order of its names, and no cell beside it. -/
theorem last_set_counts (hf : s.IsFinite st.root) (key a b : Value) :
    (st.set s key a).result = (st.set s key b).result ∧
      ((st.set s key a).result = .ok () →
        (st.set (st.set s key a).store key b).result = .ok () ∧
        (st.set (st.set s key a).store key b).store = (st.set s key b).store) := by
  cases hk : keyPath s key with
  | error fault =>
    rw [st.set_of_keyPath_error hk, st.set_of_keyPath_error hk]
    refine ⟨rfl, ?_⟩
    intro h
    cases h
  | ok path =>
    obtain ⟨-, hk'⟩ := keyPath_eq_ok hk
    obtain ⟨hstore, hresult⟩ := st.set_of_keyPath hk a
    obtain ⟨hstore', hresult'⟩ := st.set_of_keyPath hk b
    constructor
    · rw [hresult, hresult']
      exact writeFrom_result_eq s path [] st.root a b path
    · intro h
      rw [hresult] at h
      obtain ⟨hstore₂, hresult₂⟩ := st.set_of_keyPath (hk' (st.set s key a).store) b
      rw [hstore₂, hresult₂, hstore, hstore']
      exact writeFrom_writeFrom hf h b

/-- A list stands under two names, one of them in a tuple.  Below its item a name is set, to the root,
and then a number: the list has become a mapping, another one has been filled up, and nothing is left
of the first value. -/
theorem last_set_counts_converts :
    ∃ (s : Store) (st : Storage),
      s.IsFinite st.root ∧
      s.tree st.root = .mapping .custom [(.text "a", .list [.leaf (.int 7)]),
        (.text "t", .tuple [.list [.leaf (.int 7)]])] ∧
      (st.set s (.text " a.b[1]") st.root).result = .ok () ∧
      (st.set (st.set s (.text " a.b[1]") st.root).store (.text " a.b[1]") (.ofAtom (.int 5))).store =
        (st.set s (.text " a.b[1]") (.ofAtom (.int 5))).store ∧
      (st.set s (.text " a.b[1]") (.ofAtom (.int 5))).store.tree st.root =
        .mapping .custom [(.text "a", .mapping .plain [(.text "0", .leaf (.int 7)),
            (.text "b", .list [.leaf .none, .leaf (.int 5)])]),
          (.text "t", .tuple [.list [.leaf (.int 7)]])] := by
  obtain ⟨s, hs⟩ : ∃ s : Store, s = { Store.empty with cells := #[.list [.ofAtom (.int 7)],
      .tuple [.ref ⟨0⟩],
      .mapping .custom [(.text "a", .ref ⟨0⟩), (.text "t", .ref ⟨1⟩)]] } := ⟨_, rfl⟩
  have hf : s.IsFinite (Storage.root ⟨.ref ⟨2⟩, 0⟩) := by
    subst hs
    decide +kernel
  have hok : (set ⟨.ref ⟨2⟩, 0⟩ s (.text " a.b[1]") (.ref ⟨2⟩)).result = .ok () := by
    subst hs
    cbv
  obtain ⟨-, hlast⟩ := last_set_counts hf (.text " a.b[1]") (.ref ⟨2⟩) (.ofAtom (.int 5))
  refine ⟨s, ⟨.ref ⟨2⟩, 0⟩, hf, ?_, hok, (hlast hok).2, ?_⟩
  · subst hs
    cbv
  · subst hs
    cbv

end Storage

end PathStore
