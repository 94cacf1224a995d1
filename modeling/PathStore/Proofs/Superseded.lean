import Mathlib
import PathStore.Proofs.Snapshots

/-!
# Superseded storages

When a call on a state installs a snapshot, the storage that was the current one until then is
superseded.  Over a run of calls, between which the caller may make new values, every superseded
storage keeps the contents that it had then, and no cell that can change is reached both from a
superseded storage and from the current one (`superseded_unchanged`).  What is asked of the caller is
that no value that is put in shares such a cell with a superseded storage.
-/

namespace PathStore

/-! ## Runs -/

/-- A call on a state that may change it. -/
inductive StateCall where
  | set (key new : Value) (force : Bool)
  | delete (key : Value) (keep : Choice) (force : Bool)
  | refresh

/-- A storage that has been superseded, and the contents that it had then. -/
structure Superseded where
  storage : Storage
  contents : Data

namespace Hub

/-- The hub after a call on a state. -/
def after (h : Hub) (n : Nat) : StateCall → Hub
  | .set key new force => (h.setValue n key new force).1
  | .delete key keep force => (h.deleteValue n key keep force).1
  | .refresh => (h.refresh n).1

/-- The hub when all that a call writes or takes out is done and no snapshot is installed yet. -/
def edited (h : Hub) (n : Nat) : StateCall → Hub
  | .set key new _ => (h.setIn n key new).1
  | .delete key keep _ => (h.deleteIn n key keep).1
  | .refresh => h

/-- What a call on a state supersedes: the storage that was the current one, if it is no longer. -/
def supersededBy (h : Hub) (n : Nat) (call : StateCall) : List Superseded :=
  if ((h.after n call).state n).storage = (h.state n).storage then []
  else [⟨(h.state n).storage, (h.edited n call).store.tree (h.state n).storage.root⟩]

end Hub

/-- A value that is put in is data and shares no cell that can change with a superseded storage. -/
def StateCall.Allowed (h : Hub) (past : List Superseded) : StateCall → Prop
  | .set _ new _ => h.store.IsData new ∧
      ∀ p ∈ past, h.store.Apart Cell.isMutable new p.storage.root
  | _ => True

/-- Calls on state `n` lead from `h₀` to `h`, superseding the storages `past` one after the other;
between the calls new values are made. -/
inductive Run (n : Nat) (h₀ : Hub) : List Superseded → Hub → Prop
  | start : Run n h₀ [] h₀
  | make {past : List Superseded} {h : Hub} {s : Store} (run : Run n h₀ past h)
      (grows : h.store.Grows s) : Run n h₀ past { h with store := s }
  | call {past : List Superseded} {h : Hub} (call : StateCall) (run : Run n h₀ past h)
      (allowed : call.Allowed h past) : Run n h₀ (past ++ h.supersededBy n call) (h.after n call)

/-! ## What every call preserves -/

/-- The superseded storages have kept their contents and share no cell that can change with the
current one. -/
structure Isolated (n : Nat) (past : List Superseded) (h : Hub) : Prop where
  lt_size : n < h.states.size
  silent : (h.state n).subscribers = []
  isData : h.store.IsData (h.state n).storage.root
  past_isFinite : ∀ p ∈ past, h.store.IsFinite p.storage.root
  past_tree : ∀ p ∈ past, h.store.tree p.storage.root = p.contents
  apart : ∀ p ∈ past, h.store.Apart Cell.isMutable (h.state n).storage.root p.storage.root

variable {n : Nat} {h h' h₀ : Hub} {past : List Superseded} {new : Value}

open Store

theorem Isolated.grows (hi : Isolated n past h) (hst : h'.states = h.states)
    (hg : h.store.Grows h'.store) : Isolated n past h' := by
  have hstate : h'.state n = h.state n := by rw [Hub.state, Hub.state, hst]
  have hcur := hg.keeps hi.isData.closed
  have hpast : ∀ p ∈ past, Keeps h.store h'.store p.storage.root := fun p hp =>
    hg.keeps (hi.past_isFinite p hp).closed
  refine ⟨by rw [hst]; exact hi.lt_size, by rw [hstate]; exact hi.silent,
    by rw [hstate]; exact hcur.isData hi.isData, fun p hp => ?_, fun p hp => ?_, fun p hp => ?_⟩
  · exact (hpast p hp).isFinite (hi.past_isFinite p hp)
  · rw [(hpast p hp).tree (hi.past_isFinite p hp), hi.past_tree p hp]
  · rw [hstate]
    exact (hi.apart p hp).keeps hcur (hpast p hp)

/-- An edit of the current storage with a value that is apart from the superseded ones does not
reach these. -/
theorem Isolated.edit (hi : Isolated n past h) (hst : h'.states = h.states)
    (he : h.store.Edit h'.store (h.state n).storage.root new) (hd : h.store.IsData new)
    (ha : ∀ p ∈ past, h.store.Apart Cell.isMutable new p.storage.root) : Isolated n past h' := by
  have hstate : h'.state n = h.state n := by rw [Hub.state, Hub.state, hst]
  have hpast : ∀ p ∈ past, Keeps h.store h'.store p.storage.root := fun p hp =>
    he.keeps (hi.past_isFinite p hp).closed
      ((hi.apart p hp).symm.of_imp fun c => Cell.isMutable_of_isContainer)
  refine ⟨by rw [hst]; exact hi.lt_size, by rw [hstate]; exact hi.silent,
    by rw [hstate]; exact he.isData hi.isData hi.isData hd, fun p hp => ?_, fun p hp => ?_,
    fun p hp => ?_⟩
  · exact (hpast p hp).isFinite (hi.past_isFinite p hp)
  · rw [(hpast p hp).tree (hi.past_isFinite p hp), hi.past_tree p hp]
  · rw [hstate]
    exact (he.apart (hi.past_isFinite p hp).closed (fun _ => Cell.isMutable_of_isContainer)
      (hi.apart p hp).symm (ha p hp).symm).symm

/-- Installing a snapshot supersedes the current storage and nothing else. -/
theorem Isolated.install (hi : Isolated n past h) {s : Store} {w : Value}
    (hc : h.store.clone (h.state n).storage.root = .ok (s, w)) :
    Isolated n (past ++ [⟨(h.state n).storage, h.store.tree (h.state n).storage.root⟩])
      (h.withSnapshot n s w) := by
  obtain ⟨hg, hw⟩ := clone_spec hi.isData hc
  have hg' : h.store.Grows (h.withSnapshot n s w).store := hg
  have hfin : ∀ p ∈ past ++ [⟨(h.state n).storage, h.store.tree (h.state n).storage.root⟩],
      h.store.IsFinite p.storage.root ∧ h.store.tree p.storage.root = p.contents := by
    intro p hp
    rcases List.mem_append.1 hp with hp | hp
    · exact ⟨hi.past_isFinite p hp, hi.past_tree p hp⟩
    · obtain rfl := List.mem_singleton.1 hp
      exact ⟨hw.isFinite, rfl⟩
  have hroot : ((h.withSnapshot n s w).state n).storage.root = w := by
    rw [Hub.withSnapshot_state hi.lt_size]
    rfl
  refine ⟨?_, ?_, ?_, fun p hp => ?_, fun p hp => ?_, fun p hp => ?_⟩
  · simpa [Hub.withSnapshot] using hi.lt_size
  · rw [Hub.withSnapshot_subscribers, hi.silent]
  · rw [hroot]
    exact hw.isData hi.isData
  · exact (hg'.keeps (hfin p hp).1.closed).isFinite (hfin p hp).1
  · rw [(hg'.keeps (hfin p hp).1.closed).tree (hfin p hp).1, (hfin p hp).2]
  · rw [hroot]
    intro r c hc hm hr hr'
    -- the copy reaches new cells only, and the superseded storage none of these
    have hle : h.store.size ≤ r.index := hw.isCopy.fresh r c hc hm hr
    rw [(hg'.keeps (hfin p hp).1.closed).reaches_iff] at hr'
    have hlt : r.index < h.store.size := (hfin p hp).1.closed r hr'
    omega

theorem Isolated.of_append {past' : List Superseded} (hi : Isolated n (past ++ past') h) :
    Isolated n past h :=
  ⟨hi.lt_size, hi.silent, hi.isData, fun p hp => hi.past_isFinite p (List.mem_append_left _ hp),
    fun p hp => hi.past_tree p (List.mem_append_left _ hp),
    fun p hp => hi.apart p (List.mem_append_left _ hp)⟩

namespace Hub

theorem edited_states (h : Hub) (n : Nat) (call : StateCall) :
    (h.edited n call).states = h.states := by
  cases call <;> rfl

/-- After a call all that it writes or takes out is done, and maybe the state was refreshed. -/
theorem after_eq (h : Hub) (n : Nat) (call : StateCall) :
    h.after n call = h.edited n call ∨ h.after n call = ((h.edited n call).refresh n).1 := by
  have hanswer : ∀ {α : Type} (force : Bool) (h' : Hub) (a : α),
      (answerAfter refresh n force h' a).1 = h' ∨
        (answerAfter refresh n force h' a).1 = (h'.refresh n).1 := by
    intro α force h' a
    cases force with
    | false => exact Or.inl rfl
    | true =>
      right
      simp only [answerAfter, if_true]
      rcases h'.refresh n with ⟨h'', _ | _⟩ <;> rfl
  cases call with
  | set key new force =>
    simp only [after, edited, setValue, setWith]
    rcases h.setIn n key new with ⟨h', _ | _⟩
    · exact Or.inl rfl
    · exact hanswer force h' ()
  | delete key keep force =>
    simp only [after, edited, deleteValue, deleteWith]
    rcases h.deleteIn n key keep with ⟨h', _ | removed⟩
    · exact Or.inl rfl
    · exact hanswer force h' removed
  | refresh => exact Or.inr rfl

end Hub

theorem Isolated.edited (hi : Isolated n past h) {call : StateCall} (ha : call.Allowed h past) :
    Isolated n past (h.edited n call) := by
  have hnone : h.store.IsData .none := isData_atom rfl 0
  cases call with
  | set key new force => exact hi.edit rfl ((h.state n).storage.set_edit h.store key new) ha.1 ha.2
  | delete key keep force =>
    exact hi.edit rfl ((h.state n).storage.delete_edit h.store key keep) hnone
      fun p _ => apart_atom _ _ _ _ _
  | refresh => exact hi

/-- Every allowed call keeps the superseded storages as they are. -/
theorem Isolated.after (hi : Isolated n past h) {call : StateCall} (ha : call.Allowed h past) :
    Isolated n (past ++ h.supersededBy n call) (h.after n call) := by
  have hedited := hi.edited ha
  have hstate : (h.edited n call).state n = h.state n := by
    rw [Hub.state, Hub.state, Hub.edited_states]
  rcases Hub.after_eq h n call with heq | heq
  · have hnone : h.supersededBy n call = [] := by
      unfold Hub.supersededBy
      rw [heq, hstate, if_pos rfl]
    rw [hnone, List.append_nil, heq]
    exact hedited
  · rw [Hub.refresh_of_silent hedited.silent] at heq
    cases hc : (h.edited n call).store.clone ((h.edited n call).state n).storage.root with
    | error fault =>
      rw [Hub.install_of_error hc] at heq
      have hnone : h.supersededBy n call = [] := by
        unfold Hub.supersededBy
        rw [heq, hstate, if_pos rfl]
      rw [hnone, List.append_nil, heq]
      exact hedited
    | ok p =>
      obtain ⟨s, w⟩ := p
      rw [Hub.install_of_ok hc] at heq
      have hinstall := hedited.install hc
      rw [hstate] at hinstall
      rw [heq]
      unfold Hub.supersededBy
      split
      · rw [List.append_nil]
        exact hinstall.of_append
      · exact hinstall

/-- Along a run the superseded storages keep their contents and share nothing that can change with
the current one. -/
theorem Run.isolated (run : Run n h₀ past h) (hi : Isolated n [] h₀) : Isolated n past h := by
  induction run with
  | start => exact hi
  | make run grows ih => exact ih.grows rfl grows
  | call call run allowed ih => exact ih.after allowed

/-- A storage that has been superseded keeps, for the rest of a run, the contents that it had then,
and reaches no cell that can change and that the current storage reaches as well. -/
theorem superseded_unchanged (hn : n < h₀.states.size) (hs : (h₀.state n).subscribers = [])
    (hd : h₀.store.IsData (h₀.state n).storage.root) (run : Run n h₀ past h) :
    ∀ p ∈ past, h.store.tree p.storage.root = p.contents ∧
      h.store.Apart Cell.isMutable (h.state n).storage.root p.storage.root := by
  have hstart : Isolated n [] h₀ := by
    refine ⟨hn, hs, hd, ?_, ?_, ?_⟩ <;> exact fun p hp => by cases hp
  have hi := run.isolated hstart
  exact fun p hp => ⟨hi.past_tree p hp, hi.apart p hp⟩

/-- What is written after a snapshot is not seen in the storage that it superseded. -/
theorem superseded_unchanged_by_next_write :
    ∃ past h, Run 0 (Hub.empty.newState .none).1 past h ∧
      past.map Superseded.contents = [.fields [("a", .leaf (.int 1))]] ∧
      h.store.tree (h.state 0).storage.root = .fields [("a", .leaf (.int 2))] ∧
      ∀ p ∈ past, h.store.tree p.storage.root = p.contents ∧
        h.store.Apart Cell.isMutable (h.state 0).storage.root p.storage.root := by
  have hroot : (Hub.empty.newState .none).1.store.IsFinite
      ((Hub.empty.newState .none).1.state 0).storage.root := by decide +kernel
  have run₀ : Run 0 (Hub.empty.newState .none).1 [] (Hub.empty.newState .none).1 := .start
  have run := (run₀.call (.set (.text "a") (.ofAtom (.int 1)) true)
    ⟨isData_atom rfl 0, fun p _ => apart_atom _ _ _ _ _⟩).call
    (.set (.text "a") (.ofAtom (.int 2)) false)
    ⟨isData_atom rfl 0, fun p _ => apart_atom _ _ _ _ _⟩
  refine ⟨_, _, run, by cbv, by cbv, ?_⟩
  exact superseded_unchanged (by decide) rfl (hroot.isData_iff.2 (by decide +kernel)) run

end PathStore
