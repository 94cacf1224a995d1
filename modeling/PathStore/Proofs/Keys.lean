import Mathlib
import PathStore.Proofs.Abandoned
import PathStore.Proofs.Reports
import PathStore.Store.Shown

/-!
# Which keys are refused

A key addresses nothing if it is no text, or a text with no character but delimiters between its blank
ends (`Value.IsVoid`).  Getting and setting refuse such a key for its format, and deleting does nothing
(`Storage.key_outcomes`); the error carries the key as it is shown, so where a value cannot be shown,
that is the fault instead, and no storage error (`Store.unreported_shown`).  Every other key has a path
of segments from the start of lists.  Along such a path a slot can be looked up everywhere, and it can
be assigned to wherever a container can hold it, unless a list would grow too far
(`Store.overflows_of_fails`).  So what is left is a gap for getting, and a value in the way for setting,
whatever the tree looks like.
-/

namespace PathStore

/-! ## Definitions -/

/-- A key that is a text has no runs of digits that are too long to be read. -/
def Value.Readable : Value → Prop
  | .atom (.text t) _ => t.Readable
  | _ => True

/-- A key addresses nothing: it is no text, or there are only delimiters between its blank ends. -/
def Value.IsVoid : Value → Prop
  | .atom (.text t) _ => ∀ c ∈ Text.trim t, c = .char '[' ∨ c = .char '.' ∨ c = .char ']'
  | _ => True

/-- If the outcome is a fault, that is no storage error. -/
def Unreported {α : Type} (e : Except Fault α) : Prop :=
  ∀ fault, e = .error fault → fault.storageError? = none

/-! ## Values that are shown -/

section
variable {α β : Type} {e : Except Fault α}

theorem unreported_ok (a : α) : Unreported (.ok a : Except Fault α) := by
  intro fault h
  cases h

theorem Unreported.bind {f : α → Except Fault β} (h : Unreported e) (hf : ∀ a, Unreported (f a)) :
    Unreported (e >>= f) := by
  cases e with
  | ok a => exact hf a
  | error fault =>
    intro fault' h'
    cases h'
    exact h fault rfl

theorem unreported_ofInt (i : Int) : Unreported (Text.ofInt i) := by
  intro fault h
  unfold Text.ofInt at h
  split at h <;> cases h
  rfl

theorem unreported_format (path : Path) : Unreported path.format := by
  intro fault h
  unfold Path.format at h
  split at h <;> cases h
  rfl

theorem unreported_atom (a : Atom) : Unreported a.shown := by
  cases a with
  | int i => exact unreported_ofInt i
  | bool b => cases b <;> exact unreported_ok _
  | _ => exact unreported_ok _

theorem unreported_mapM {f : α → Except Fault β} (hf : ∀ x, Unreported (f x)) (xs : List α) :
    Unreported (xs.mapM f) := by
  induction xs with
  | nil => exact unreported_ok []
  | cons x xs ih =>
    rw [List.mapM_cons]
    exact (hf x).bind fun y => ih.bind fun ys => unreported_ok (y :: ys)

end

section
variable {f : Atom → Except Fault Text}

mutual

theorem unreported_shownBy (hf : ∀ a, Unreported (f a)) (k : MapKey) :
    Unreported (k.shownBy f) := by
  cases k with
  | atom a => exact hf a
  | tuple items => exact (unreported_shownAllBy hf items).bind fun ts => unreported_ok _

theorem unreported_shownAllBy (hf : ∀ a, Unreported (f a)) (ks : List MapKey) :
    Unreported (MapKey.shownAllBy f ks) := by
  cases ks with
  | nil => exact unreported_ok []
  | cons k ks =>
    exact (unreported_shownBy hf k).bind fun t =>
      (unreported_shownAllBy hf ks).bind fun ts => unreported_ok (t :: ts)

end

end

namespace Store

variable {s s' : Store} {root cur new : Value} {seg : Segment} {path rest : Path} {fault : Fault}
  {kind : MappingKind} {es : Entries Value}

theorem unreported_keys (s : Store) (v : Value) : Unreported (s.keys v) := by
  intro fault h
  unfold keys at h
  split at h
  · cases h
  · cases h
    rfl

/-- That a value cannot be shown is no storage error: a view that leads to a gap is shown as such. -/
theorem unreported_shownTo (s : Store) (depth : Nat) (around : List Ref) (v : Value) :
    Unreported (s.shownTo depth around v) := by
  induction depth generalizing around v with
  | zero =>
    intro fault h
    cases h
    rfl
  | succ depth ih =>
    have hkey : ∀ (rs : List Ref) (k : MapKey),
        Unreported (k.shownBy fun a => s.shownTo depth rs (.ofAtom a)) :=
      fun rs k => unreported_shownBy (fun a => ih rs _) k
    unfold shownTo
    split
    · next n _ =>
      exact (unreported_keys s _).bind fun ks => (unreported_mapM (hkey around) ks).bind fun ts =>
        unreported_ok _
    · next n _ =>
      -- what is shown of the view once it has been read, or could not be
      have hread : ∀ value : Option Value,
          Unreported (value.elim (.ok (Text.quote "<unreadable>")) (s.shownTo depth around)) := by
        intro value
        cases value with
        | none => exact unreported_ok _
        | some v => exact ih around v
      simp only
      split
      · next v _ =>
        exact (unreported_format _).bind fun t => (hread (some v)).bind fun t' => unreported_ok _
      · exact (unreported_format _).bind fun t => (hread none).bind fun t' => unreported_ok _
      · next fault hother hfault =>
        intro fault' h
        cases h
        rcases read_eq_error hfault with ⟨gap, -, rfl⟩ | ⟨Tells, hbarred, htells⟩
        · rcases Fault.showing_eq_or (s.view n).path (.keyNotFound (s.view n).path gap) with
            heq | ⟨-, heq⟩
          · exact absurd heq (hother _ _)
          · rw [heq]
            rfl
        · exact hbarred.storageError?_eq_none htells
    · exact unreported_atom _
    · next r =>
      split
      · exact unreported_ok _
      · next c _ =>
        simp only
        split
        · exact unreported_ok _
        · cases c with
          | mapping kind es =>
            refine (unreported_mapM (fun e => ?_) es).bind fun ts => unreported_ok _
            exact (hkey _ e.1).bind fun t => (ih _ e.2).bind fun t' => unreported_ok _
          | list xs => exact (unreported_mapM (ih _) xs).bind fun ts => unreported_ok _
          | tuple xs => exact (unreported_mapM (ih _) xs).bind fun ts => unreported_ok _
          | set ks => exact (unreported_mapM (hkey _) ks).bind fun ts => unreported_ok _

theorem unreported_shown (s : Store) (v : Value) : Unreported (s.shown v) :=
  unreported_shownTo s _ [] v

/-! ## Writing -/

/-- A slot of a written segment can be assigned to where a value can hold it, unless a list would grow
too far. -/
theorem overflows_of_fails (h : seg.Fails fault) (hw : seg.IsWritten) :
    Overflows (.error fault : Except Fault Unit) := by
  obtain ⟨s, v, hl | ⟨hfits, x, ha⟩⟩ := h
  · obtain ⟨slot, hslot⟩ := lookup_isOk hw s v
    cases hl.symm.trans hslot
  · obtain ⟨r, c, rfl, hc, ⟨kind, es, rfl⟩ | ⟨xs, p, rfl, rfl⟩⟩ := passage_eq_fits hfits
    · simp [assign, hc, Cell.assign_mapping hw.isWritable, Except.map] at ha
    · simp only [assign, hc, Cell.assign] at ha
      rcases @assignAt_of_nonneg _ .none x xs p hw.1 with ⟨ys, hys⟩ | ho | ho
      · simp [hys, Except.map] at ha
      · simp only [ho, Except.map, Except.error.injEq] at ha
        exact Or.inl (by rw [ha])
      · simp only [ho, Except.map, Except.error.injEq] at ha
        exact Or.inr (by rw [ha])

/-- Writing along a written path below a mapping succeeds, or is refused by a value in the way, or
asks for too long a list. -/
theorem write_outcome (hm : s.cell? root = some (.mapping kind es))
    (hw : ∀ x ∈ path, x.IsWritten) (new : Value) :
    (s.write root path new).result = .ok () ∨
      (∃ fault, (s.write root path new).result = .error fault ∧
        fault.kind? = some .rawValue) ∨
      Overflows (s.write root path new).result := by
  cases path with
  | nil => exact Or.inl rfl
  | cons seg rest =>
    cases hr : (s.write root (seg :: rest) new).result with
    | ok u => exact Or.inl rfl
    | error fault =>
      have hfits : s.passage root seg = .fits := by
        unfold passage
        rw [isNone_of_mapping hm, hm]
        rfl
      rcases (stopped_of_writeFrom hr).fails_of_fits hfits with hraw | ⟨hno, -⟩ | ⟨x, hx, hfails⟩
      · refine Or.inr (Or.inl ⟨fault, rfl, ?_⟩)
        cases fault <;> first | rfl | exact hraw.elim
      · cases (Segment.IsWritten.path_isWritable hw).symm.trans hno
      · exact Or.inr (Or.inr (overflows_of_fails hfails (hw x hx)))

end Store

/-! ## Keys -/

namespace Storage

open Store

variable {s : Store} {st : Storage} {key new : Value} {kind : MappingKind} {es : Entries Value}

/-- What is no text has no path: it is refused as it is shown. -/
theorem keyPath_of_not_text (s : Store) (h : ∀ t copy, key ≠ .atom (.text t) copy) :
    keyPath s key =
      match s.shown key with
      | .error fault => .error fault
      | .ok text => .error (.blankKey text) := by
  unfold keyPath
  split
  · next t copy => exact absurd rfl (h t copy)
  · rfl

/-- A key that addresses nothing is refused for its format, or cannot be shown. -/
theorem keyPath_of_isVoid (s : Store) (hk : key.Readable) (h : key.IsVoid) :
    ∃ fault, keyPath s key = .error fault ∧
      ((∃ text, s.shown key = .ok text) ∧ fault.kind? = some .keyFormat ∨
        s.shown key = .error fault ∧ fault.kind? = none) := by
  by_cases htext : ∃ t copy, key = .atom (.text t) copy
  · obtain ⟨t, copy, rfl⟩ := htext
    obtain ⟨path, hp, hnil⟩ := hk.exists_path
    obtain rfl := hnil.2 h
    have hshown : s.shown (.atom (.text t) copy) = .ok (Text.quote t) := shown_scalar rfl copy
    simp only [keyPath, hp]
    by_cases hblank : Text.trim t = []
    · rw [if_pos hblank]
      exact ⟨_, rfl, Or.inl ⟨⟨_, hshown⟩, rfl⟩⟩
    · rw [if_neg hblank]
      exact ⟨_, rfl, Or.inl ⟨⟨_, hshown⟩, rfl⟩⟩
  · rw [keyPath_of_not_text s fun t copy heq => htext ⟨t, copy, heq⟩]
    cases hshown : s.shown key with
    | ok text => exact ⟨_, rfl, Or.inl ⟨⟨text, rfl⟩, rfl⟩⟩
    | error fault =>
      refine ⟨fault, rfl, Or.inr ⟨rfl, ?_⟩⟩
      rw [Fault.kind?, unreported_shown s key fault hshown]
      rfl

/-- Every other key is a text that stands for a path of segments. -/
theorem exists_path_of_not_isVoid (hk : key.Readable) (h : ¬ key.IsVoid) :
    ∃ t copy path, key = .atom (.text t) copy ∧ Path.read (Text.trim t) = .ok path ∧ path ≠ [] := by
  obtain ⟨t, copy, rfl⟩ : ∃ t copy, key = .atom (.text t) copy := by
    by_contra hno
    refine h ?_
    unfold Value.IsVoid
    split
    · next t copy => exact absurd ⟨t, copy, rfl⟩ hno
    · trivial
  obtain ⟨path, hp, hnil⟩ := hk.exists_path
  exact ⟨t, copy, path, rfl, hp, fun hempty => h (hnil.1 hempty)⟩

/-- Deleting does nothing under a key that addresses nothing. -/
theorem delete_of_isVoid (st : Storage) (s : Store) (hk : key.Readable) (h : key.IsVoid)
    (keep : Choice) : st.delete s key keep = .done s .none := by
  unfold delete
  cases hu : usableKey? key with
  | none => rfl
  | some trimmed =>
    obtain ⟨t, copy, rfl, rfl⟩ : ∃ t copy, key = .atom (.text t) copy ∧ Text.trim t = trimmed := by
      unfold usableKey? at hu
      split at hu
      · next t copy =>
        split at hu
        · cases hu
        · exact ⟨t, copy, rfl, Option.some.inj hu⟩
      · cases hu
    obtain ⟨path, hp, hnil⟩ := hk.exists_path
    obtain rfl := hnil.2 h
    simp only [hp]
    rfl

/-- Getting and setting refuse a key that addresses nothing with the same fault, and nothing is changed.
It is one of format if the key can be shown. -/
theorem refused_of_isVoid (st : Storage) (s : Store) (hk : key.Readable) (h : key.IsVoid)
    (new : Value) :
    ∃ fault, st.get s key = .error fault ∧ st.set s key new = .fail s fault ∧
      (fault.kind? = some .keyFormat ↔ ∃ text, s.shown key = .ok text) ∧
      (fault.kind? = some .keyFormat ∨ s.shown key = .error fault) := by
  obtain ⟨fault, hpath, hfault⟩ := keyPath_of_isVoid s hk h
  have hget : st.get s key = .error fault := by rw [get, hpath]
  refine ⟨fault, hget, set_of_keyPath_error st hpath new, ?_, hfault.imp And.right And.left⟩
  rcases hfault with ⟨hshown, hkind⟩ | ⟨hshown, hkind⟩
  · exact ⟨fun _ => hshown, fun _ => hkind⟩
  · rw [hkind, hshown]
    simp

/-- Getting under every other key gives something or comes to a gap. -/
theorem get_of_not_isVoid (st : Storage) (s : Store) (hk : key.Readable) (h : ¬ key.IsVoid) :
    (∃ v, st.get s key = .ok v) ∨
      ∃ fault, st.get s key = .error fault ∧ fault.kind? = some .keyNotFound := by
  obtain ⟨t, copy, path, rfl, hp, hne⟩ := exists_path_of_not_isVoid hk h
  have hw := Path.isWritten_of_read hp
  rw [get, keyPath_of_read s copy hp hne]
  refine (s.read_of_isWritten st.root hw).imp_right ?_
  rintro ⟨gap, hgap⟩
  exact ⟨_, hgap, rfl⟩

/-- Setting under every other key succeeds, or is refused by a value in the way, or asks for too long a
list. -/
theorem set_of_not_isVoid (hm : s.cell? st.root = some (.mapping kind es)) (hk : key.Readable)
    (h : ¬ key.IsVoid) (new : Value) :
    (st.set s key new).result = .ok () ∨
      (∃ fault, (st.set s key new).result = .error fault ∧ fault.kind? = some .rawValue) ∨
      Overflows (st.set s key new).result := by
  obtain ⟨t, copy, path, rfl, hp, hne⟩ := exists_path_of_not_isVoid hk h
  rw [(set_of_keyPath st (keyPath_of_read s copy hp hne) new).2]
  exact write_outcome hm (Path.isWritten_of_read hp) new

/-- What getting, setting and deleting make of a key, in every store and below every mapping.  A key
that addresses nothing is refused for its format by getting and setting, unless it cannot be shown,
and nothing is changed; deleting does nothing then.  Under every other key getting gives something or
comes to a gap, and setting succeeds, or is refused by a value in the way, or asks for too long a
list. -/
theorem key_outcomes (hm : s.cell? st.root = some (.mapping kind es)) (hk : key.Readable)
    (new : Value) (keep : Choice) :
    ((∃ fault, st.get s key = .error fault ∧ fault.kind? = some .keyFormat) ↔
      key.IsVoid ∧ ∃ text, s.shown key = .ok text) ∧
    ((∃ fault, (st.set s key new).result = .error fault ∧ fault.kind? = some .keyFormat) ↔
      key.IsVoid ∧ ∃ text, s.shown key = .ok text) ∧
    (key.IsVoid →
      (∃ fault, st.get s key = .error fault ∧ st.set s key new = .fail s fault ∧
        (fault.kind? = some .keyFormat ∨ s.shown key = .error fault)) ∧
      st.delete s key keep = .done s .none) ∧
    (¬ key.IsVoid →
      ((∃ v, st.get s key = .ok v) ∨
        ∃ fault, st.get s key = .error fault ∧ fault.kind? = some .keyNotFound) ∧
      ((st.set s key new).result = .ok () ∨
        (∃ fault, (st.set s key new).result = .error fault ∧ fault.kind? = some .rawValue) ∨
        Overflows (st.set s key new).result)) := by
  by_cases hv : key.IsVoid
  · obtain ⟨fault, hget, hset, hformat, hfault⟩ := refused_of_isVoid st s hk hv new
    refine ⟨?_, ?_, fun _ => ⟨⟨fault, hget, hset, hfault⟩, delete_of_isVoid st s hk hv keep⟩,
      fun hno => absurd hv hno⟩
    · rw [hget]
      simpa [hv] using hformat
    · rw [hset]
      simpa [hv, Effect.fail] using hformat
  · have hgot := get_of_not_isVoid st s hk hv
    have hwritten := set_of_not_isVoid hm hk hv new
    refine ⟨⟨?_, fun h => absurd h.1 hv⟩, ⟨?_, fun h => absurd h.1 hv⟩, fun h => absurd h hv,
      fun _ => ⟨hgot, hwritten⟩⟩
    · rintro ⟨fault, hfault, hkind⟩
      rcases hgot with ⟨v, hok⟩ | ⟨fault', hfault', hkind'⟩
      · cases hfault.symm.trans hok
      · cases hfault.symm.trans hfault'
        cases hkind.symm.trans hkind'
    · rintro ⟨fault, hfault, hkind⟩
      rcases hwritten with hok | ⟨fault', hfault', hkind'⟩ | ho | ho
      · cases hfault.symm.trans hok
      · cases hfault.symm.trans hfault'
        cases hkind.symm.trans hkind'
      · cases hfault.symm.trans ho
        cases hkind
      · cases hfault.symm.trans ho
        cases hkind

/-- Keys below a mapping of one list: a number, delimiters between blanks, and a text that leads below
an item that is no container. -/
theorem key_outcomes_below_list :
    ∃ (s : Store) (st : Storage),
      s.tree st.root = .mapping .plain [(.text "a", .list [.leaf (.int 7)])] ∧
      (∃ fault, st.get s (.ofAtom (.int 5)) = .error fault ∧ fault.kind? = some .keyFormat) ∧
      st.delete s (.ofAtom (.text " [.]] ")) (.ofBool true) = .done s .none ∧
      ((∃ v, st.get s (.ofAtom (.text " a[0].x.y")) = .ok v) ∨
        ∃ fault, st.get s (.ofAtom (.text " a[0].x.y")) = .error fault ∧
          fault.kind? = some .keyNotFound) ∧
      (st.set s (.ofAtom (.text " a[0].x.y")) .none).result =
        .error (.rawValue [.key "a", .index 0, .key "x", .key "y"] [.key "a", .index 0]
          (.key "x")) := by
  obtain ⟨s, hs⟩ : ∃ s : Store, s = { Store.empty with cells := #[.list [.ofAtom (.int 7)],
      .mapping .plain [(.text "a", .ref ⟨0⟩)]] } := ⟨_, rfl⟩
  have hm : s.cell? (⟨.ref ⟨1⟩, 0⟩ : Storage).root =
      some (.mapping .plain [(.text "a", .ref ⟨0⟩)]) := by
    subst hs
    rfl
  have hfive : (Value.ofAtom (.int 5)).Readable := trivial
  have hblank : (Value.ofAtom (.text " [.]] ")).Readable := by
    show Text.Readable " [.]] "
    decide +kernel
  have hvoid : (Value.ofAtom (.text " [.]] ")).IsVoid := by
    show ∀ c ∈ Text.trim " [.]] ", c = .char '[' ∨ c = .char '.' ∨ c = .char ']'
    decide +kernel
  have hdeep : (Value.ofAtom (.text " a[0].x.y")).Readable := by
    show Text.Readable " a[0].x.y"
    decide +kernel
  have hnot : ¬ (Value.ofAtom (.text " a[0].x.y")).IsVoid := by
    show ¬ ∀ c ∈ Text.trim " a[0].x.y", c = .char '[' ∨ c = .char '.' ∨ c = .char ']'
    decide +kernel
  refine ⟨s, ⟨.ref ⟨1⟩, 0⟩, ?_, ?_, ?_, ?_, ?_⟩
  · subst hs
    cbv
  · exact (key_outcomes hm hfive .none (.ofBool true)).1.2 ⟨trivial, _, shown_scalar rfl 0⟩
  · exact ((key_outcomes hm hblank .none (.ofBool true)).2.2.1 hvoid).2
  · exact ((key_outcomes hm hdeep .none (.ofBool true)).2.2.2 hnot).1
  · subst hs
    cbv

/-- A storage over a list has no keys to be shown by, so that it cannot even be refused as a key for
its format. -/
theorem get_of_key_not_shown :
    ∃ (s : Store) (st : Storage) (key : Value), s.cell? st.root = some (.mapping .plain []) ∧
      key.Readable ∧ key.IsVoid ∧ st.get s key = .error (.noAttribute "list" "keys") ∧
      (st.set s key .none).result = .error (.noAttribute "list" "keys") ∧
      (Fault.noAttribute "list" "keys").kind? = none :=
  ⟨{ Store.empty with cells := #[.mapping .plain [], .list []], storages := #[.ref ⟨0⟩, .ref ⟨1⟩] },
    ⟨.ref ⟨0⟩, 0⟩, .object .storage 1, rfl, trivial, trivial, by cbv, by cbv, rfl⟩

end Storage

end PathStore
