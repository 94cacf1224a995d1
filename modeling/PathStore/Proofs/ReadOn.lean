import Mathlib
import PathStore.Proofs.Reports

/-!
# Reading on

Reading along a path in two parts is reading along the first part and then, from what was read there,
along the second (`read_append`).  What fails in one of the parts fails in the whole, with the gap
counted from the start of the whole path (`Fault.within`).  Nothing can be read at the end of the
first part, and that is a result; when the path goes on from there it is a gap, so what the two parts
give is the same whether there is a second part or not (`reading_composes`).
-/

namespace PathStore

/-! ## Definitions -/

/-- The report of a read that came to a gap. -/
def StorageError.ofGap (path gap : Path) : StorageError :=
  ⟨.keyNotFound, gap.spelling ++ " is not defined.", path.spelling, some gap.spelling⟩

/-- The fault of a read along `path`, given the fault of the part of it that starts where `before`
leads. -/
def Fault.within (path before : Path) : Fault → Fault
  | keyNotFound _ gap => showing path (keyNotFound path (before ++ gap))
  | fault => fault

/-! ## Faults of a part -/

theorem Path.isWritable_append (p q : Path) :
    (p ++ q).isWritable = (p.isWritable && q.isWritable) :=
  List.all_append

namespace Fault

variable {fault : Fault} {path part before gap : Path}

/-- What is no storage error is the fault of the whole path. -/
theorem within_of_storageError?_eq_none (h : fault.storageError? = none) (path before : Path) :
    fault.within path before = fault := by
  cases fault <;> first | rfl | cases h

/-- A gap in a part of a path is reported for the whole path. -/
theorem within_showing (h : path.isWritable = true → part.isWritable = true) :
    (showing part (keyNotFound part gap)).within path before =
      showing path (keyNotFound path (before ++ gap)) := by
  cases hpart : part.isWritable with
  | true =>
    rw [showing_of_isWritable hpart]
    rfl
  | false =>
    have hpath : path.isWritable = false := by
      cases hpath : path.isWritable with
      | true => cases hpart.symm.trans (h hpath)
      | false => rfl
    rw [showing_of_not_isWritable hpart, showing_of_not_isWritable hpath]
    rfl

end Fault

namespace Store

variable {s : Store} {t v : Value} {p q gap path before rest : Path} {fault : Fault}

/-! ## Reading a part -/

/-- Reading along a part of a path gives what reading along it alone gives, with its gap counted from
the start of the whole path. -/
theorem readFrom_within {path' : Path} (hpath : path.isWritable = true → path'.isWritable = true)
    (s : Store) (before before' : Path) (cur : Value) (rest : Path) :
    s.readFrom path (before ++ before') cur rest =
      (s.readFrom path' before' cur rest).mapError (Fault.within path before) := by
  induction rest generalizing cur before' with
  | nil => rfl
  | cons seg rest ih =>
    rw [readFrom, readFrom]
    cases hn : cur.isNone with
    | true => exact congrArg Except.error (Fault.within_showing hpath).symm
    | false =>
      cases hl : s.lookup cur seg with
      | error fault =>
        show Except.error fault = Except.error (fault.within path before)
        rw [Fault.within_of_storageError?_eq_none (storageError?_of_lookup hl)]
      | ok slot =>
        show s.readFrom path (before ++ before' ++ [seg]) slot rest =
          (s.readFrom path' (before' ++ [seg]) slot rest).mapError (Fault.within path before)
        rw [List.append_assoc]
        exact ih (before' ++ [seg]) slot

/-- Reading along two paths, one after the other, is reading along the first and on from what is read
there along the second. -/
theorem read_append (s : Store) (t : Value) (p q : Path) :
    s.read t (p ++ q) = (s.read t p).mapError (Fault.within (p ++ q) []) >>= fun v =>
      (s.read v q).mapError (Fault.within (p ++ q) p) := by
  have hparts : (p ++ q).isWritable = true → p.isWritable = true ∧ q.isWritable = true := by
    rw [Path.isWritable_append, Bool.and_eq_true]
    exact id
  have hfront := readFrom_within (fun h => (hparts h).1) s [] [] t p
  rw [List.append_nil] at hfront
  cases hp : s.readFrom p [] t p with
  | error fault =>
    rw [hp] at hfront
    rw [read, read, hp]
    exact readFrom_append_error hfront q
  | ok v =>
    rw [hp] at hfront
    rw [read, read, hp, readFrom_append hfront, List.nil_append]
    have hback := readFrom_within (fun h => (hparts h).2) s p [] v q
    rw [List.append_nil] at hback
    exact hback

/-! ## The parts and the whole -/

theorem read_append_of_error (h : s.read t p = .error fault) (q : Path) :
    s.read t (p ++ q) = .error (fault.within (p ++ q) []) := by
  rw [read_append, h]
  rfl

theorem read_append_of_ok (h : s.read t p = .ok v) (q : Path) :
    s.read t (p ++ q) = (s.read v q).mapError (Fault.within (p ++ q) p) := by
  rw [read_append, h]
  rfl

/-- A gap is a part of the path, and not all of it. -/
theorem GapAt.proper (h : s.GapAt t path gap) : gap <+: path ∧ gap ≠ path := by
  obtain ⟨seg, left, rfl⟩ := h.on_path
  exact ⟨⟨seg :: left, rfl⟩, fun heq => by simp at heq⟩

/-- Where a part that can be written is read at the start of a path that can be, only the path of the
report is another one. -/
theorem report_of_front (h : s.read t p = .error fault) (hq : q.isWritable = true) :
    (fault.within (p ++ q) []).message = fault.message ∧
      (fault.within (p ++ q) []).storageError? =
        fault.storageError?.map ({ · with path := (p ++ q).spelling }) := by
  rcases read_eq_error h with ⟨gap, -, rfl⟩ | ⟨Tells, hbarred, htells⟩
  · cases hp : p.isWritable with
    | true =>
      have hpq : (p ++ q).isWritable = true := by rw [Path.isWritable_append, hp, hq, Bool.and_self]
      rw [Fault.showing_of_isWritable hp, Fault.within, Fault.showing_of_isWritable hpq]
      exact ⟨rfl, rfl⟩
    | false =>
      rw [Fault.showing_of_not_isWritable hp]
      exact ⟨rfl, rfl⟩
  · have hnone := hbarred.storageError?_eq_none htells
    rw [Fault.within_of_storageError?_eq_none hnone, hnone]
    exact ⟨rfl, rfl⟩

/-- Reading composes, for every value and all paths.  Where the first part fails, the whole fails in
the same way, with the same words and the same part of the path gone through.  Where it gives `v`, the
whole gives just what the second part gives from `v`, and fails where this fails: with the gap of the
second part put behind the first one, or else with the very same fault.  If nothing was there to be
read on from, it reports the first part.  A report names the whole path, so what is said of reports is
said of paths that can be written. -/
theorem reading_composes (s : Store) (t : Value) (p q : Path) :
    (∀ fault, s.read t p = .error fault → ∃ fault', s.read t (p ++ q) = .error fault' ∧
      (q.isWritable = true → fault'.message = fault.message ∧
        fault'.storageError? = fault.storageError?.map ({ · with path := (p ++ q).spelling })) ∧
      (fault.storageError? = none → fault' = fault)) ∧
    ∀ v, s.read t p = .ok v →
      (∀ w, s.read t (p ++ q) = .ok w ↔ s.read v q = .ok w) ∧
      (p.isWritable = true → ∀ fault, s.read v q = .error fault →
        (∃ gap fault', fault = .keyNotFound q gap ∧ gap <+: q ∧ gap ≠ q ∧
          s.read t (p ++ q) = .error fault' ∧
          fault'.storageError? = some (.ofGap (p ++ q) (p ++ gap))) ∨
        fault.storageError? = none ∧ s.read t (p ++ q) = .error fault) ∧
      ((p ++ q).isWritable = true → q ≠ [] → v.isNone = true →
        ∃ fault', s.read t (p ++ q) = .error fault' ∧
          fault'.storageError? = some (.ofGap (p ++ q) p)) := by
  constructor
  · intro fault h
    exact ⟨_, read_append_of_error h q, report_of_front h,
      fun hnone => Fault.within_of_storageError?_eq_none hnone _ _⟩
  · intro v h
    have happend := read_append_of_ok h q
    refine ⟨fun w => ?_, fun hp fault hq => ?_, fun hpq hne hn => ?_⟩
    · rw [happend]
      cases s.read v q with
      | error fault =>
        constructor <;> intro hw <;> cases hw
      | ok w' => exact Iff.rfl
    · rw [happend, hq]
      have hsame : fault.storageError? = none →
          (Except.error fault).mapError (Fault.within (p ++ q) p) =
            (.error fault : Except Fault Value) := fun hnone =>
        congrArg Except.error (Fault.within_of_storageError?_eq_none hnone _ _)
      rcases read_eq_error hq with ⟨gap, hgap, rfl⟩ | ⟨Tells, hbarred, htells⟩
      · cases hw : q.isWritable with
        | true =>
          have hpq : (p ++ q).isWritable = true := by
            rw [Path.isWritable_append, hp, hw, Bool.and_self]
          obtain ⟨hbefore, hproper⟩ := hgap.proper
          rw [Fault.showing_of_isWritable hw]
          refine Or.inl ⟨gap, _, rfl, hbefore, hproper, rfl, ?_⟩
          rw [Fault.within, Fault.showing_of_isWritable hpq]
          rfl
        | false =>
          rw [Fault.showing_of_not_isWritable hw]
          exact Or.inr ⟨rfl, rfl⟩
      · have hnone := hbarred.storageError?_eq_none htells
        exact Or.inr ⟨hnone, hsame hnone⟩
    · obtain ⟨seg, rest, rfl⟩ := List.exists_cons_of_ne_nil hne
      refine ⟨_, read_of_gap h hn seg rest, ?_⟩
      rw [Fault.showing_of_isWritable hpq]
      rfl

/-- The last item but one of a list is a mapping that has nothing under a name: what is read there is
nothing, and a gap if the path goes on.  From the mapping on, the gap is at `b`. -/
theorem reading_composes_from_end :
    ∃ (s : Store) (root v : Value) (gone : Fault),
      s.tree root = .mapping .plain [(.text "a", .list [.mapping .custom [(.text "b", .leaf .none)],
        .leaf (.int 7)])] ∧
      s.read root [.key "a", .index (-2)] = .ok v ∧
      s.read v [.key "b", .index 0] = .error (.keyNotFound [.key "b", .index 0] [.key "b"]) ∧
      s.read root [.key "a", .index (-2), .key "b"] = .ok .none ∧
      s.read root [.key "a", .index (-2), .key "b", .index 0] = .error gone ∧
      gone.storageError? =
        some ⟨.keyNotFound, "a[-2].b is not defined.", "a[-2].b[0]", some "a[-2].b"⟩ ∧
      s.read root [.key "a", .index (-3)] = .error .indexOutOfRange := by
  obtain ⟨s, hs⟩ : ∃ s : Store, s = { Store.empty with cells := #[
      .mapping .custom [(.text "b", .none)], .list [.ref ⟨0⟩, .ofAtom (.int 7)],
      .mapping .plain [(.text "a", .ref ⟨1⟩)]] } := ⟨_, rfl⟩
  have hitem : s.read (.ref ⟨2⟩) [.key "a", .index (-2)] = .ok (.ref ⟨0⟩) := by
    subst hs
    cbv
  have hlist : s.read (.ref ⟨2⟩) [.key "a"] = .ok (.ref ⟨1⟩) := by
    subst hs
    cbv
  have hname : s.read (.ref ⟨0⟩) [.key "b"] = .ok .none := by
    subst hs
    cbv
  have hgap : s.read (.ref ⟨0⟩) [.key "b", .index 0] =
      .error (.keyNotFound [.key "b", .index 0] [.key "b"]) := by
    subst hs
    cbv
  have hbefore : s.read (.ref ⟨1⟩) [.index (-3)] = .error .indexOutOfRange := by
    subst hs
    cbv
  have hnone := (((reading_composes s _ _ [.key "b"]).2 _ hitem).1 .none).2 hname
  have hfails : s.read (.ref ⟨2⟩) [.key "a", .index (-3)] = .error .indexOutOfRange := by
    rcases ((reading_composes s _ _ [.index (-3)]).2 _ hlist).2.1 (by decide) _ hbefore with
      ⟨gap, fault, hgone, -⟩ | ⟨-, hwhole⟩
    · cases hgone
    · exact hwhole
  rcases ((reading_composes s _ _ [.key "b", .index 0]).2 _ hitem).2.1 (by decide) _ hgap with
    ⟨gap, gone, hgone, -, -, hwhole, hreport⟩ | ⟨hreport, -⟩
  · cases hgone
    refine ⟨s, .ref ⟨2⟩, .ref ⟨0⟩, gone, ?_, hitem, hgap, hnone, hwhole, ?_, hfails⟩
    · subst hs
      cbv
    · rw [hreport]
      decide +kernel
  · cases hreport

end Store

end PathStore
