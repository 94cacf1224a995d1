import Mathlib
import PathStore.Proofs.Keys
import PathStore.Proofs.Notified
import PathStore.Proofs.Served

/-!
# When deletions end well

Deleting accepts every key, and does nothing under one that leads to no slot.  The one thing that stops
it is a run of more digits than are read, of which it says so and does nothing; under every other key
it ends well, whatever the tree looks like (`Storage.delete_outcomes`).  A state that is to be refreshed
afterwards can fail to copy its contents, but not for the deletion (`Hub.deleteValue_outcomes`), and
the service replies to a call that deletes with success unless there is no room for such a copy
(`Service.App.Serves.delete_outcomes`).
-/

namespace PathStore

/-! ## Storages -/

/-- The key is a text, and its path leads to a container that has the last slot of the path. -/
def Storage.FindsSlot (st : Storage) (s : Store) (key : Value) : Prop :=
  ∃ t copy front last r c, key = .atom (.text t) copy ∧
    Path.read (Text.trim t) = .ok (front ++ [last]) ∧ s.SlotAt st.root front last r c

/-- A text that is not readable is not blank, and is refused for one of its runs of digits. -/
theorem Text.read_of_not_readable {t : Text} (h : ¬ t.Readable) :
    trim t ≠ [] ∧ ∃ count, Path.read (trim t) = .error (.tooManyDigits count) := by
  unfold Readable at h
  push Not at h
  obtain ⟨run, hmem, hd, hlt⟩ := h
  constructor
  · intro hblank
    rw [hblank, runs_nil] at hmem
    cases hmem
  · rcases Path.read_outcome (trim t) with ⟨hall, -⟩ | ⟨run', -, -, hread⟩
    · exact absurd ⟨hd, hlt⟩ (hall run hmem)
    · exact ⟨run'.length, hread⟩

namespace Storage

variable {s : Store} {st : Storage} {key : Value} {t : Text} {copy : Nat}

theorem usableKey?_of_ne_nil (h : Text.trim t ≠ []) (copy : Nat) :
    usableKey? (.atom (.text t) copy) = some (Text.trim t) :=
  if_neg h

/-- A key that is not readable is refused for its digits, and nothing is changed. -/
theorem delete_of_not_readable (st : Storage) (s : Store) (hk : ¬ key.Readable) (keep : Choice) :
    ∃ count, st.delete s key keep = .fail s (.tooManyDigits count) := by
  unfold Value.Readable at hk
  split at hk
  · next t copy =>
    obtain ⟨hne, count, hread⟩ := Text.read_of_not_readable hk
    refine ⟨count, ?_⟩
    rw [delete, usableKey?_of_ne_nil hne]
    simp only [hread]
  · exact absurd trivial hk

theorem trim_ne_nil_of_not_isVoid (h : ¬ (Value.atom (.text t) copy).IsVoid) :
    Text.trim t ≠ [] := by
  intro hblank
  refine h fun c hc => ?_
  rw [hblank] at hc
  cases hc

/-- Deleting under a readable key ends well. -/
theorem delete_of_readable (st : Storage) (s : Store) (hk : key.Readable) (keep : Choice) :
    ∃ removed, (st.delete s key keep).result = .ok removed := by
  by_cases hv : key.IsVoid
  · rw [delete_of_isVoid st s hk hv keep]
    exact ⟨.none, rfl⟩
  · obtain ⟨t, copy, path, rfl, hp, -⟩ := exists_path_of_not_isVoid hk hv
    have hu := usableKey?_of_ne_nil (trim_ne_nil_of_not_isVoid hv) copy
    have hno : ∀ Tells, ¬ s.Barred st.root path Tells := fun _ =>
      Store.not_barred_of_isWritten (Path.isWritten_of_read hp)
    obtain ⟨s', old, hrem⟩ := Store.remove_of_not_barred hno keep.yes
    refine ⟨old, ?_⟩
    rw [(delete_sameEnd st hu hp keep).result, hrem]
    rfl

/-- Deleting under a readable key does nothing where the key finds no slot. -/
theorem delete_of_not_findsSlot (hk : key.Readable) (hno : ¬ st.FindsSlot s key)
    (keep : Choice) : st.delete s key keep = .done s .none := by
  by_cases hv : key.IsVoid
  · exact delete_of_isVoid st s hk hv keep
  · obtain ⟨t, copy, path, rfl, hp, hne⟩ := exists_path_of_not_isVoid hk hv
    obtain ⟨front, last, rfl⟩ := (List.eq_nil_or_concat' path).resolve_left hne
    have hu := usableKey?_of_ne_nil (trim_ne_nil_of_not_isVoid hv) copy
    obtain ⟨hfront, hlast⟩ := List.forall_mem_append.1 (Path.isWritten_of_read hp)
    have hslot : ¬ ∃ r c, s.SlotAt st.root front last r c := by
      rintro ⟨r, c, hslot⟩
      exact hno ⟨t, copy, front, last, r, c, rfl, hp, hslot⟩
    obtain ⟨hrem, -⟩ := Store.remove_of_not_slotAt hfront
      (hlast last (List.mem_singleton_self last)) hslot keep.yes
    rw [delete, hu]
    simp only [hp, hrem]
    rfl

/-- Deleting ends well exactly under a readable key, whatever the store holds, and does nothing where
the key finds no slot.  A key that is not readable is refused for its digits, and nothing is changed. -/
theorem delete_outcomes (st : Storage) (s : Store) (key : Value) (keep : Choice) :
    ((∃ removed, (st.delete s key keep).result = .ok removed) ↔ key.Readable) ∧
      (key.Readable → ¬ st.FindsSlot s key → st.delete s key keep = .done s .none) ∧
      (¬ key.Readable → ∃ count, st.delete s key keep = .fail s (.tooManyDigits count)) := by
  refine ⟨⟨fun hok => ?_, fun hk => delete_of_readable st s hk keep⟩,
    fun hk hno => delete_of_not_findsSlot hk hno keep,
    fun hk => delete_of_not_readable st s hk keep⟩
  obtain ⟨removed, hok⟩ := hok
  by_contra hk
  obtain ⟨count, hfail⟩ := delete_of_not_readable st s hk keep
  rw [hfail] at hok
  cases hok

end Storage

/-! ## States -/

namespace Hub

variable {h : Hub} {n : Nat} {key : Value}

/-- Deleting in a state under a key that is not readable is refused for its digits. -/
theorem deleteValue_of_not_readable (h : Hub) (n : Nat) (hk : ¬ key.Readable) (keep : Choice)
    (force : Bool) :
    ∃ count, h.deleteValue n key keep force = (h, .error (.tooManyDigits count)) := by
  obtain ⟨count, hfail⟩ :=
    Storage.delete_of_not_readable (h.state n).storage h.store hk keep
  refine ⟨count, ?_⟩
  have hin : h.deleteIn n key keep = (h, .error (.tooManyDigits count)) := by
    rw [deleteIn, hfail]
    simp [apply, Effect.fail]
  rw [deleteValue, deleteWith, hin]

/-- Deleting in a state under a readable key ends well, unless the contents are to be copied afterwards
and have no copy; a key that is not readable is refused for its digits, and nothing is changed. -/
theorem deleteValue_outcomes (hn : n < h.states.size)
    (hl : ∀ v ∈ (h.state n).subscribers, (listener? v).isSome) (key : Value) (keep : Choice)
    (force : Bool) :
    (key.Readable → (∃ removed, (h.deleteValue n key keep force).2 = .ok removed) ∨
      force = true ∧ ∃ fault,
        (h.deleteIn n key keep).1.store.clone (h.state n).storage.root = .error fault ∧
        h.deleteValue n key keep force = ((h.deleteIn n key keep).1, .error fault)) ∧
      (¬ key.Readable →
        ∃ count, h.deleteValue n key keep force = (h, .error (.tooManyDigits count))) := by
  refine ⟨fun hk => ?_, fun hk => deleteValue_of_not_readable h n hk keep force⟩
  obtain ⟨removed, hok⟩ := Storage.delete_of_readable (h.state n).storage h.store hk keep
  have hquiet := h.deleteIn_quiet n key keep
  have hin : h.deleteIn n key keep = ((h.deleteIn n key keep).1, .ok removed) :=
    Prod.ext rfl hok
  generalize (h.deleteIn n key keep).1 = h₁ at *
  rw [deleteValue, deleteWith, hin]
  cases force with
  | false => exact Or.inl ⟨removed, rfl⟩
  | true =>
    rcases refresh_told (h := h₁) (n := n) (by rw [hquiet.states]; exact hn)
        (by rw [hquiet.state n]; exact hl) with
      ⟨fault, hcopy, hr⟩ | ⟨h₂, st', h', new, -, -, -, hr, -⟩
    · rw [hquiet.state n] at hcopy
      refine Or.inr ⟨rfl, fault, hcopy, ?_⟩
      simp only [answerAfter, if_true, hr]
    · refine Or.inl ⟨removed, ?_⟩
      simp only [answerAfter, if_true, hr]

end Hub

/-! ## The service -/

namespace Service

variable {t : Data} {v n r : Nat} {path : Text} {keep force : Bool}

/-- The operation of a deletion succeeds exactly under a readable key. -/
theorem Call.delete_carry (t : Data) (path : Text) (keep force : Bool) :
    (path.Readable ∧ ∃ u, ((Call.delete path keep force).carry t).2 = .ok u) ∨
      ¬ path.Readable ∧ ∃ count,
        (Call.delete path keep force).carry t = (t, .error (.tooManyDigits count)) := by
  by_cases hk : path.Readable
  · exact Or.inl ⟨hk, Data.deleteAt_isOk hk (Choice.ofBool keep).yes t⟩
  · obtain ⟨hne, count, hread⟩ := Text.read_of_not_readable hk
    refine Or.inr ⟨hk, count, ?_⟩
    show t.deleteAt (.text path) (Choice.ofBool keep).yes = _
    have hu : Storage.usableKey? (.ofAtom (.text path)) = some (Text.trim path) :=
      Storage.usableKey?_of_ne_nil hne 0
    rw [Data.deleteAt, hu]
    simp only [hread]
    rfl

/-- The service replies to a call that deletes with success exactly under a readable key, if there is
room to copy the contents where that is asked for.  Under a key that is not readable the digits get
through as a crash, and everything stays as it is. -/
theorem App.Serves.delete_outcomes {a : App} (hs : a.Serves r n t v) (room : Call → Data → Bool)
    (path : Text) (keep force : Bool) :
    ((a.serve room (.storage (.delete path keep force))).2.answer.status = 200 ↔
        path.Readable ∧ (Call.delete path keep force).lacksRoom room t = false) ∧
      (¬ path.Readable → ∃ count,
        (a.serve room (.storage (.delete path keep force))).2 = .crash (.tooManyDigits count) ∧
        (a.serve room (.storage (.delete path keep force))).1.Serves r n t v) := by
  rw [hs.serve]
  obtain ⟨hshares, hreply⟩ := hs.deleteValue_outcome room path keep force
  have hreg := (a.carryOut_registry room n (.delete path keep force)).trans hs.registry
  have hcrash (fault : Fault) : (Reply.crash fault).answer.status ≠ 200 := by
    rw [Reply.answer]
    decide
  rw [App.carryOut] at hreg ⊢
  rw [hreply]
  rcases Call.delete_carry t path keep force with ⟨hk, u, hu⟩ | ⟨hk, count, hcarry⟩
  · refine ⟨?_, fun hno => absurd hk hno⟩
    cases hd : (Call.delete path keep force).lacksRoom room t with
    | true =>
      rw [Call.outcome_of_lacksRoom hd]
      simp [hcrash]
    | false =>
      rw [(Call.outcome_of_room hd).trans hu]
      simp [hk, Reply.answer]
  · have hout := Call.outcome_of_error room (congrArg Prod.snd hcarry)
    rw [hout]
    rw [hcarry, Call.rise_of_error hout] at hshares
    exact ⟨by simp [hcrash, hk], fun _ => ⟨count, rfl, hreg, hshares, hs.isMapping⟩⟩

end Service

/-! ## Deletions -/

/-- When deletions under a key end well: in a storage, in a state, and, if the key is a text, as a call
of the service. -/
theorem deletion_outcomes (key : Value) (keep : Choice) :
    (∀ (st : Storage) (s : Store),
      ((∃ removed, (st.delete s key keep).result = .ok removed) ↔ key.Readable) ∧
      (key.Readable → ¬ st.FindsSlot s key → st.delete s key keep = .done s .none) ∧
      (¬ key.Readable → ∃ count, st.delete s key keep = .fail s (.tooManyDigits count))) ∧
    (∀ (h : Hub) (n : Nat) (force : Bool), n < h.states.size →
      (∀ v ∈ (h.state n).subscribers, (Hub.listener? v).isSome) →
        (key.Readable → (∃ removed, (h.deleteValue n key keep force).2 = .ok removed) ∨
          force = true ∧ ∃ fault,
            (h.deleteIn n key keep).1.store.clone (h.state n).storage.root = .error fault ∧
            h.deleteValue n key keep force = ((h.deleteIn n key keep).1, .error fault)) ∧
        (¬ key.Readable →
          ∃ count, h.deleteValue n key keep force = (h, .error (.tooManyDigits count)))) ∧
    ∀ (room : Service.Call → Data → Bool) (a : Service.App) (r n : Nat) (t : Data) (v : Nat)
      (path : Text) (preserve force : Bool), key = .ofAtom (.text path) → a.Serves r n t v →
        ((a.serve room (.storage (.delete path preserve force))).2.answer.status = 200 ↔
          key.Readable ∧ (Service.Call.delete path preserve force).lacksRoom room t = false) ∧
        (¬ key.Readable → ∃ count,
          (a.serve room (.storage (.delete path preserve force))).2 =
            .crash (.tooManyDigits count) ∧
          (a.serve room (.storage (.delete path preserve force))).1.Serves r n t v) := by
  refine ⟨fun st s => st.delete_outcomes s key keep,
    fun h n force hn hl => Hub.deleteValue_outcomes hn hl key keep force, ?_⟩
  rintro room a r n t v path preserve force rfl hs
  exact hs.delete_outcomes room path preserve force

/-- A key that leads nowhere: nothing is taken out of a storage over an empty mapping, of a state whose
listeners quarrel, or by a service that copies its contents afterwards. -/
theorem deletion_outcomes_of_nothing :
    ∃ (s : Store) (st : Storage) (a₀ : Service.App),
      s.tree st.root = .empty ∧
      st.delete s (.ofAtom (.text "a[0].x")) (.ofBool true) = .done s .none ∧
      (∃ removed, (Hub.quarrel.deleteValue 0 (.ofAtom (.text "a[0].x")) (.ofBool true) false).2 =
        .ok removed) ∧
      (Service.App.build (fun _ => .ok .nothing) ⟨[]⟩ Service.Options.onEmpty).2 = .ok a₀ ∧
      (a₀.serve (Service.direct 1000).hasRoom
        (.storage (.delete "a[0].x" true true))).2.answer.status = 200 := by
  have hk : (Value.ofAtom (.text "a[0].x")).Readable := by
    show Text.Readable "a[0].x"
    decide +kernel
  obtain ⟨s, hs⟩ : ∃ s : Store, s = { Store.empty with cells := #[.mapping .plain []] } := ⟨_, rfl⟩
  have hno : ¬ (⟨.ref ⟨0⟩, 0⟩ : Storage).FindsSlot s (.ofAtom (.text "a[0].x")) := by
    rintro ⟨t, copy, front, last, r, c, hkey, hp, hslot⟩
    cases hkey
    have hpath : Path.read (Text.trim "a[0].x") = .ok ([.key "a", .index 0] ++ [.key "x"]) := by cbv
    obtain ⟨rfl, -⟩ := List.append_inj' (Except.ok.inj (hp.symm.trans hpath)) rfl
    have hleads := hslot.leads
    subst hs
    cases hleads
  obtain ⟨hstorage, hstate, hservice⟩ :=
    deletion_outcomes (.ofAtom (.text "a[0].x")) (.ofBool true)
  obtain ⟨a₀, h, root, r, built, -, -, -, hserves⟩ :=
    Service.build_onEmpty (fun _ => .ok .nothing) ⟨[]⟩
  have hcarry : (Service.Call.delete "a[0].x" true true).carry .empty = (.empty, .ok .nothing) := by
    cbv
  have hroom : (Service.Call.delete "a[0].x" true true).lacksRoom (Service.direct 1000).hasRoom
      .empty = false := by
    rw [Service.Call.lacksRoom, hcarry]
    rfl
  refine ⟨s, ⟨.ref ⟨0⟩, 0⟩, a₀, ?_, (hstorage _ s).2.1 hk hno, ?_, built,
    (hservice _ a₀ r _ _ 0 _ true true rfl hserves).1.2 ⟨hk, hroom⟩⟩
  · subst hs
    rfl
  · exact ((hstate Hub.quarrel 0 false (by decide) (by decide)).1 hk).resolve_right
      fun hforce => by cases hforce.1

/-- One digit too many is refused, though nothing stands under such a key. -/
theorem delete_of_too_many_digits :
    ∃ (s : Store) (st : Storage) (t : Text), s.cell? st.root = some (.mapping .plain []) ∧
      t = List.replicate 4301 (.char '1') ∧
      ∃ count,
        st.delete s (.ofAtom (.text t)) (.ofBool false) = .fail s (.tooManyDigits count) := by
  refine ⟨{ Store.empty with cells := #[.mapping .plain []] }, ⟨.ref ⟨0⟩, 0⟩, _, rfl, rfl, ?_⟩
  refine Storage.delete_of_not_readable _ _ ?_ _
  show ¬ Text.Readable (List.replicate 4301 (.char '1'))
  have hone : ∀ c ∈ List.replicate 4301 (CodePoint.char '1'), c = .char '1' := fun c hc =>
    List.eq_of_mem_replicate hc
  have htrim : Text.trim (List.replicate 4301 (.char '1')) = List.replicate 4301 (.char '1') := by
    refine Text.trim_eq_self fun c hc => ?_
    rw [hone c hc]
    decide
  have hrun : Text.runs (List.replicate 4301 (.char '1')) = [List.replicate 4301 (.char '1')] := by
    have hne : List.replicate 4301 (CodePoint.char '1') ≠ [] :=
      List.ne_nil_of_mem (List.mem_replicate.2 ⟨by decide, rfl⟩)
    refine Text.runs_eq_singleton hne fun c hc => ?_
    rw [hone c hc]
    decide
  intro h
  unfold Text.Readable at h
  rw [htrim, hrun, List.forall_mem_singleton] at h
  have hlen := h (List.all_eq_true.2 fun c hc => by rw [hone c hc]; decide)
  rw [List.length_replicate] at hlen
  exact absurd hlen (by decide)

end PathStore
