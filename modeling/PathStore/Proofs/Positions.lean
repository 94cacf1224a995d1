import Mathlib
import PathStore.Proofs.Removed

/-!
# Positions that no item has

A path of segments can have any integer for a position, and a list has no item at most of them.  A
position past the end holds nothing: reading finds nothing there, and removing leaves everything as
it is.  Two kinds of positions are barred (`Cell.Bars`): one before the first item of a list, and one
that is to be a name in a mapping and has too many digits.  Reading and removing both fail where a
path comes to the one or the other (`Underruns`, `Overlong`), and nowhere else do they fail in another
way than reading into a gap, which is reported if the path can be written (`position_outcomes`).  The
paths of texts never come to such a position, since their positions are not negative and were short
enough to be read.
-/

namespace PathStore

/-! ## Definitions -/

/-- The fault is that a position lies before the first item of a list. -/
def Fault.BeforeFirst : Fault → Prop
  | indexOutOfRange => True
  | indexUnderflow => True
  | popOutOfRange => True
  | popFromEmpty => True
  | popUnderflow => True
  | _ => False

namespace Store

/-- The path asks a list for the item at a position: `gone` leads from the root to the list of the
items `xs`, and the path goes on to the position `p`. -/
structure AsksFor (s : Store) (root : Value) (path gone : Path) (p : Int)
    (xs : List Value) : Prop where
  on_path : ∃ left, path = gone ++ .index p :: left
  holds : ∃ r, s.read root gone = .ok (.ref r) ∧ s.get? r = some (.list xs)

/-- The path asks a list for an item before its first one. -/
def Underruns (s : Store) (root : Value) (path : Path) : Prop :=
  ∃ gone p xs, s.AsksFor root path gone p xs ∧ p + xs.length < 0

/-- The path asks a mapping for a position that has too many digits to be a name in it. -/
def Overlong (s : Store) (root : Value) (path : Path) : Prop :=
  ∃ gone seg left r kind es, path = gone ++ seg :: left ∧ seg.isWritable = false ∧
    s.read root gone = .ok (.ref r) ∧ s.get? r = some (.mapping kind es)

/-- The path goes on from `gap`, where nothing stands. -/
structure GapAt (s : Store) (root : Value) (path gap : Path) : Prop where
  on_path : ∃ seg left, path = gap ++ seg :: left
  nothing : ∃ v, s.read root gap = .ok v ∧ v.isNone = true

end Store

/-! ## Positions in a list -/

section
variable {α : Type} {fill : α} {xs : List α} {p : Int} {keep : Bool}

/-- A position has no place in a list if it lies past the end or before the first item. -/
theorem offset?_eq_none_iff {length : Nat} :
    offset? length p = none ↔ length ≤ p ∨ p + length < 0 := by
  unfold offset?
  split
  · split <;> simp <;> omega
  · split <;> simp <;> omega

theorem isBeforeFirst_beforeFirst {fault underflow : Fault} (h : fault.BeforeFirst)
    (hu : underflow.BeforeFirst) : (beforeFirst p fault underflow).BeforeFirst := by
  unfold beforeFirst
  split
  · exact hu
  · exact h

/-- Just the positions before the first item cannot be read. -/
theorem itemAt_outcome (fill : α) (xs : List α) (p : Int) :
    (¬ p + xs.length < 0 ∧ ∃ x, itemAt fill xs p = .ok x) ∨
      p + xs.length < 0 ∧ ∃ fault, itemAt fill xs p = .error fault ∧ fault.BeforeFirst := by
  unfold itemAt
  by_cases hlt : p < xs.length
  · rw [if_pos hlt]
    cases ho : offset? xs.length p with
    | none =>
      obtain hge | hneg := offset?_eq_none_iff.1 ho
      · omega
      · exact Or.inr ⟨hneg, _, rfl, isBeforeFirst_beforeFirst trivial trivial⟩
    | some n =>
      refine Or.inl ⟨fun hneg => ?_, _, rfl⟩
      cases ho.symm.trans (offset?_eq_none_iff.2 (Or.inr hneg))
  · rw [if_neg hlt]
    exact Or.inl ⟨by omega, _, rfl⟩

/-- Just at the positions before the first item nothing can be taken out. -/
theorem takeAt_outcome (fill : α) (keep : Bool) (xs : List α) (p : Int) :
    (¬ p + xs.length < 0 ∧ ∃ ys old, takeAt fill keep xs p = .ok (ys, old)) ∨
      p + xs.length < 0 ∧ ∃ fault, takeAt fill keep xs p = .error fault ∧ fault.BeforeFirst := by
  unfold takeAt
  by_cases hge : (xs.length : Int) ≤ p
  · rw [if_pos hge]
    exact Or.inl ⟨by omega, _, _, rfl⟩
  · rw [if_neg hge]
    cases ho : offset? xs.length p with
    | none =>
      obtain hge' | hneg := offset?_eq_none_iff.1 ho
      · exact absurd hge' hge
      · refine Or.inr ⟨hneg, _, rfl, ?_⟩
        cases keep with
        | true => exact isBeforeFirst_beforeFirst trivial trivial
        | false =>
          refine isBeforeFirst_beforeFirst ?_ trivial
          split <;> trivial
    | some n =>
      refine Or.inl ⟨fun hneg => ?_, _, _, rfl⟩
      cases ho.symm.trans (offset?_eq_none_iff.2 (Or.inr hneg))

end

/-! ## Barred slots -/

/-- A cell has no slot that could be asked for at a segment; `Tells` says which faults come of it. -/
inductive Cell.Bars : Cell → Segment → (Fault → Prop) → Prop
  | beforeFirst {xs : List Value} {p : Int} (before : p + xs.length < 0) :
      Bars (list xs) (.index p) Fault.BeforeFirst
  | overlong {kind : MappingKind} {es : Entries Value} {seg : Segment}
      (long : seg.isWritable = false) : Bars (mapping kind es) seg (· = .unwritable)

namespace Cell

variable {c : Cell} {seg : Segment} {keep : Bool} {fault : Fault} {Tells : Fault → Prop}

theorem Bars.lookup (h : c.Bars seg Tells) : ∃ fault, c.lookup seg = .error fault ∧ Tells fault := by
  cases h with
  | @beforeFirst xs p before =>
    rcases itemAt_outcome Value.none xs p with ⟨hno, -⟩ | ⟨-, hfails⟩
    · exact absurd before hno
    · exact hfails
  | overlong long =>
    rw [Cell.lookup, Segment.name_of_not_isWritable long]
    exact ⟨_, rfl, rfl⟩

theorem Bars.take (h : c.Bars seg Tells) (keep : Bool) :
    ∃ fault, c.take keep seg = .error fault ∧ Tells fault := by
  cases h with
  | @beforeFirst xs p before =>
    rcases takeAt_outcome Value.none keep xs p with ⟨hno, -⟩ | ⟨-, fault, hfault, htells⟩
    · exact absurd before hno
    · rw [Cell.take, hfault]
      exact ⟨fault, rfl, htells⟩
  | overlong long =>
    rw [Cell.take, Segment.name_of_not_isWritable long]
    exact ⟨_, rfl, rfl⟩

/-- That a slot is barred is no storage error. -/
theorem Bars.storageError?_eq_none (h : c.Bars seg Tells) (ht : Tells fault) :
    fault.storageError? = none := by
  cases h with
  | beforeFirst => cases fault <;> first | rfl | exact ht.elim
  | overlong =>
    subst ht
    rfl

/-- A slot that cannot be looked up is barred. -/
theorem bars_of_lookup (h : c.lookup seg = .error fault) :
    ∃ Tells, c.Bars seg Tells ∧ Tells fault := by
  cases c with
  | mapping kind es =>
    cases hw : seg.isWritable with
    | true => cases (lookup_mapping hw kind es).symm.trans h
    | false =>
      rw [Cell.lookup, Segment.name_of_not_isWritable hw] at h
      exact ⟨_, .overlong hw, (Except.error.inj h).symm⟩
  | list xs =>
    cases seg with
    | key k => cases h
    | index p =>
      rcases itemAt_outcome Value.none xs p with ⟨-, x, hx⟩ | ⟨hneg, fault', hfault, htells⟩
      · cases h.symm.trans hx
      · cases h.symm.trans hfault
        exact ⟨_, .beforeFirst hneg, htells⟩
  | _ => cases h

/-- A slot out of which nothing can be taken is barred. -/
theorem bars_of_take (h : c.take keep seg = .error fault) : ∃ Tells, c.Bars seg Tells := by
  cases c with
  | mapping kind es =>
    cases hw : seg.isWritable with
    | true => cases (take_mapping hw keep kind es).symm.trans h
    | false => exact ⟨_, .overlong hw⟩
  | list xs =>
    cases seg with
    | key k => cases h
    | index p =>
      rcases takeAt_outcome Value.none keep xs p with ⟨-, ys, old, hx⟩ | ⟨hneg, -⟩
      · rw [Cell.take, hx] at h
        cases h
      · exact ⟨_, .beforeFirst hneg⟩
  | _ => cases h

end Cell

namespace Store

variable {s : Store} {root cur v : Value} {r : Ref} {c : Cell} {seg : Segment} {xs : List Value}
  {p : Int} {path before gone left : Path} {keep : Bool} {fault : Fault} {Tells : Fault → Prop}

theorem lookup_index (hc : s.get? r = some (.list xs)) (p : Int) :
    s.lookup (.ref r) (.index p) = itemAt .none xs p := by
  simp only [Store.lookup, cell?, hc, Cell.lookup]

/-- That a slot cannot be looked up is no storage error. -/
theorem storageError?_of_lookup (h : s.lookup v seg = .error fault) :
    fault.storageError? = none := by
  cases v with
  | atom a copy => cases h
  | ref r =>
    unfold Store.lookup at h
    cases hc : s.get? r with
    | none =>
      simp only [cell?, hc] at h
      cases h
    | some c =>
      simp only [cell?, hc] at h
      obtain ⟨Tells, hbars, htells⟩ := Cell.bars_of_lookup h
      exact hbars.storageError?_eq_none htells

/-- The path comes to a container in which the slot of its next segment is barred. -/
def Barred (s : Store) (root : Value) (path : Path) (Tells : Fault → Prop) : Prop :=
  ∃ gone seg left r c, path = gone ++ seg :: left ∧ s.read root gone = .ok (.ref r) ∧
    s.get? r = some c ∧ c.Bars seg Tells

theorem Underruns.barred (h : s.Underruns root path) : s.Barred root path Fault.BeforeFirst := by
  obtain ⟨gone, p, xs, ⟨⟨left, hpath⟩, r, hread, hc⟩, hneg⟩ := h
  exact ⟨gone, _, left, r, _, hpath, hread, hc, .beforeFirst hneg⟩

theorem Overlong.barred (h : s.Overlong root path) : s.Barred root path (· = .unwritable) := by
  obtain ⟨gone, seg, left, r, kind, es, hpath, hlong, hread, hc⟩ := h
  exact ⟨gone, seg, left, r, _, hpath, hread, hc, .overlong hlong⟩

theorem Barred.cases (h : s.Barred root path Tells) :
    Tells = Fault.BeforeFirst ∧ s.Underruns root path ∨
      Tells = (· = .unwritable) ∧ s.Overlong root path := by
  obtain ⟨gone, seg, left, r, c, hpath, hread, hc, hbars⟩ := h
  cases hbars with
  | beforeFirst before => exact Or.inl ⟨rfl, gone, _, _, ⟨⟨left, hpath⟩, r, hread, hc⟩, before⟩
  | overlong long => exact Or.inr ⟨rfl, gone, seg, left, r, _, _, hpath, long, hread, hc⟩

theorem Barred.storageError?_eq_none (h : s.Barred root path Tells) (ht : Tells fault) :
    fault.storageError? = none := by
  obtain ⟨gone, seg, left, r, c, -, -, -, hbars⟩ := h
  exact hbars.storageError?_eq_none ht

/-- A path on which a segment cannot be looked up is barred. -/
theorem barred_of_lookup (hread : s.read root gone = .ok v)
    (hl : s.lookup v seg = .error fault) (left : Path) :
    ∃ Tells, s.Barred root (gone ++ seg :: left) Tells ∧ Tells fault := by
  cases v with
  | atom a copy => cases hl
  | ref r =>
    unfold Store.lookup at hl
    cases hc : s.get? r with
    | none =>
      simp only [cell?, hc] at hl
      cases hl
    | some c =>
      simp only [cell?, hc] at hl
      obtain ⟨Tells, hbars, htells⟩ := Cell.bars_of_lookup hl
      exact ⟨Tells, ⟨gone, seg, left, r, c, rfl, hread, hc, hbars⟩, htells⟩

/-- Written segments are barred from no slot. -/
theorem not_barred_of_isWritten (hw : ∀ x ∈ path, x.IsWritten) : ¬ s.Barred root path Tells := by
  rintro ⟨gone, seg, left, r, c, rfl, -, -, hbars⟩
  have hseg : seg.IsWritten := hw seg (by simp)
  cases hbars with
  | beforeFirst before =>
    have hp := hseg.1
    omega
  | overlong long => cases hseg.isWritable.symm.trans long

/-! ## Reading -/

/-- Reading gives something, or it is to go on below nothing, or below a value in which the next
segment cannot be looked up. -/
theorem readFrom_cases (s : Store) (path before : Path) (cur : Value) (rest : Path) :
    (∃ v, s.readFrom path before cur rest = .ok v) ∨
      ∃ gone seg left v fault, rest = gone ++ seg :: left ∧
        s.readFrom path before cur gone = .ok v ∧
        s.readFrom path before cur rest = .error fault ∧
        (v.isNone = true ∧ fault = .showing path (.keyNotFound path (before ++ gone)) ∨
          s.lookup v seg = .error fault) := by
  induction rest generalizing before cur with
  | nil => exact Or.inl ⟨cur, rfl⟩
  | cons seg rest ih =>
    rw [readFrom]
    cases hn : cur.isNone with
    | true =>
      exact Or.inr ⟨[], seg, rest, cur, _, rfl, rfl, rfl, Or.inl ⟨hn, by rw [List.append_nil]⟩⟩
    | false =>
      cases hl : s.lookup cur seg with
      | error fault => exact Or.inr ⟨[], seg, rest, cur, fault, rfl, rfl, rfl, Or.inr hl⟩
      | ok slot =>
        refine (ih (before ++ [seg]) slot).imp_right ?_
        rintro ⟨gone, seg', left, v, fault, rfl, hread, hfault, hstop⟩
        refine ⟨seg :: gone, seg', left, v, fault, rfl, ?_, hfault, ?_⟩
        · rw [readFrom, hn, hl]
          exact hread
        · rwa [List.append_assoc] at hstop

/-- What is read one segment further on is what is in the slot. -/
theorem read_concat (hread : s.read root gone = .ok (.ref r)) (seg : Segment) (left : Path) :
    s.read root (gone ++ seg :: left) =
      match s.lookup (.ref r) seg with
      | .error fault => .error fault
      | .ok slot => s.readFrom (gone ++ seg :: left) (gone ++ [seg]) slot left := by
  rw [read, readFrom_append (readFrom_ok_congr (gone ++ seg :: left) [] hread), readFrom]
  rfl

/-- Reading does not go on from where nothing stands. -/
theorem read_of_gap (hread : s.read root gone = .ok v) (hn : v.isNone = true) (seg : Segment)
    (left : Path) :
    s.read root (gone ++ seg :: left) =
      .error (.showing (gone ++ seg :: left) (.keyNotFound (gone ++ seg :: left) gone)) := by
  rw [read, readFrom_append (readFrom_ok_congr (gone ++ seg :: left) [] hread), readFrom,
    if_pos hn, List.nil_append]

/-- Reading does not come past a barred slot. -/
theorem read_of_barred (h : s.Barred root path Tells) :
    ∃ fault, s.read root path = .error fault ∧ Tells fault := by
  obtain ⟨gone, seg, left, r, c, rfl, hread, hc, hbars⟩ := h
  obtain ⟨fault, hfault, htells⟩ := hbars.lookup
  have hl : s.lookup (.ref r) seg = .error fault := by simpa [Store.lookup, cell?, hc] using hfault
  exact ⟨fault, by rw [read_concat hread, hl], htells⟩

/-- Reading fails at a gap, or at a barred slot. -/
theorem read_eq_error (h : s.read root path = .error fault) :
    (∃ gap, s.GapAt root path gap ∧ fault = .showing path (.keyNotFound path gap)) ∨
      ∃ Tells, s.Barred root path Tells ∧ Tells fault := by
  rcases s.readFrom_cases path [] root path with
    ⟨v, hok⟩ | ⟨gone, seg, left, v, fault', hpath, hread, hfault, ⟨hn, rfl⟩ | hl⟩
  · cases h.symm.trans hok
  · cases h.symm.trans hfault
    exact Or.inl ⟨gone, ⟨⟨seg, left, hpath⟩, v, readFrom_ok_congr gone [] hread, hn⟩, rfl⟩
  · cases h.symm.trans hfault
    rw [hpath]
    exact Or.inr (barred_of_lookup (readFrom_ok_congr gone [] hread) hl left)

theorem GapAt.read (h : s.GapAt root path gone) :
    s.read root path = .error (.showing path (.keyNotFound path gone)) := by
  obtain ⟨⟨seg, left, rfl⟩, v, hread, hn⟩ := h
  exact read_of_gap hread hn seg left

/-- Where no slot on a path is barred, reading gives something or comes to a gap. -/
theorem read_of_not_barred (h : ∀ Tells, ¬ s.Barred root path Tells) :
    (∃ v, s.read root path = .ok v) ∨ ∃ gap, s.GapAt root path gap := by
  cases hr : s.read root path with
  | ok v => exact Or.inl ⟨v, rfl⟩
  | error fault =>
    rcases read_eq_error hr with ⟨gap, hgap, -⟩ | ⟨Tells, hbarred, -⟩
    · exact Or.inr ⟨gap, hgap⟩
    · exact absurd hbarred (h Tells)

/-- Along written segments reading gives something or finds a gap and reports it. -/
theorem read_of_isWritten (s : Store) (root : Value) (hw : ∀ x ∈ path, x.IsWritten) :
    (∃ v, s.read root path = .ok v) ∨
      ∃ gap, s.read root path = .error (.keyNotFound path gap) := by
  refine (read_of_not_barred fun _ => not_barred_of_isWritten hw).imp_right ?_
  rintro ⟨gap, hgap⟩
  refine ⟨gap, hgap.read.trans ?_⟩
  rw [Fault.showing_of_isWritable (Segment.IsWritten.path_isWritable hw)]

/-! ## Removing -/

/-- What is removed at the end of a path is what is taken out of the container there. -/
theorem remove_at (hread : s.read root gone = .ok (.ref r)) (hc : s.get? r = some c)
    (hk : c.isContainer = true) (seg : Segment) (keep : Bool) :
    s.remove root (gone ++ [seg]) keep =
      (c.take keep seg).map fun (c', old) => (s.put r c', old) := by
  have hk' : s.isContainer (.ref r) = true := (isContainer_ref hc).trans hk
  rw [remove_concat, holder?_append hread hk' (List.cons_ne_nil _ _), holder?]
  simp only [removeSlot, hc]

/-- Removing goes on from what is in a slot if that is a container. -/
theorem remove_through (hread : s.read root gone = .ok v) (hk : s.isContainer v = true)
    (seg : Segment) (hne : left ≠ []) (keep : Bool) :
    s.remove root (gone ++ seg :: left) keep =
      match s.lookup v seg with
      | .error fault => .error fault
      | .ok slot => if s.isContainer slot then s.remove slot left keep else .ok (s, .none) := by
  obtain ⟨front, last, rfl⟩ := (List.eq_nil_or_concat' left).resolve_left hne
  have hsplit : gone ++ seg :: (front ++ [last]) = (gone ++ seg :: front) ++ [last] := by simp
  rw [hsplit, remove_concat, ← hsplit, holder?_append hread hk (List.cons_ne_nil _ _), holder?]
  · cases s.lookup v seg with
    | error fault => rfl
    | ok slot =>
      simp only
      cases hslot : s.isContainer slot with
      | true => exact (remove_concat s slot front last keep).symm
      | false => rfl
  · exact hne

/-- Removing does not come past a barred slot. -/
theorem remove_of_barred (h : s.Barred root path Tells) (keep : Bool) :
    ∃ fault, s.remove root path keep = .error fault ∧ Tells fault := by
  obtain ⟨gone, seg, left, r, c, rfl, hread, hc, hbars⟩ := h
  have hk : c.isContainer = true := by cases hbars <;> rfl
  by_cases hleft : left = []
  · subst hleft
    obtain ⟨fault, hfault, htells⟩ := hbars.take keep
    refine ⟨fault, ?_, htells⟩
    rw [remove_at hread hc hk, hfault]
    rfl
  · obtain ⟨fault, hfault, htells⟩ := hbars.lookup
    have hl : s.lookup (.ref r) seg = .error fault := by simpa [Store.lookup, cell?, hc] using hfault
    refine ⟨fault, ?_, htells⟩
    rw [remove_through hread ((isContainer_ref hc).trans hk) _ hleft, hl]

/-- Where no slot on a path is barred, removing ends well. -/
theorem remove_of_not_barred (h : ∀ Tells, ¬ s.Barred root path Tells) (keep : Bool) :
    ∃ s' old, s.remove root path keep = .ok (s', old) := by
  rcases List.eq_nil_or_concat' path with rfl | ⟨front, last, rfl⟩
  · exact ⟨s, .none, rfl⟩
  rw [remove_concat]
  rcases s.holder?_cases root (front ++ [last]) [] front last with
    ⟨v, hread, hholder⟩ | ⟨hholder, -⟩ | ⟨fault, gone, seg, left, v, -, rfl, hread, hl⟩
  · rw [hholder]
    cases v with
    | atom a copy => exact ⟨s, .none, rfl⟩
    | ref r =>
      cases hc : s.get? r with
      | none => exact ⟨s, .none, by simp only [removeSlot, hc]⟩
      | some c =>
        cases htake : c.take keep last with
        | ok taken =>
          obtain ⟨c', old⟩ := taken
          exact ⟨s.put r c', old, by simp only [removeSlot, hc, htake, Except.map]⟩
        | error fault =>
          obtain ⟨Tells, hbars⟩ := Cell.bars_of_take htake
          exact absurd ⟨front, last, [], r, c, rfl, readFrom_ok_congr front [] hread, hc, hbars⟩
            (h Tells)
  · rw [hholder]
    exact ⟨s, .none, rfl⟩
  · obtain ⟨Tells, hbarred, -⟩ :=
      barred_of_lookup (readFrom_ok_congr gone [] hread) hl (left ++ [last])
    exact absurd (by simpa using hbarred) (h Tells)

/-- A position past the end of a list that is asked for it holds nothing, and removing along the path
leaves everything as it is. -/
theorem absent_past_end (h : s.AsksFor root path gone p xs) (hge : (xs.length : Int) ≤ p) :
    s.read root (gone ++ [.index p]) = .ok .none ∧
      ∀ keep, s.remove root path keep = .ok (s, .none) := by
  obtain ⟨⟨left, rfl⟩, r, hread, hc⟩ := h
  have hitem : itemAt Value.none xs p = .ok .none := by rw [itemAt, if_neg (by omega)]
  constructor
  · rw [read_concat hread, lookup_index hc, hitem]
    rfl
  · intro keep
    by_cases hleft : left = []
    · subst hleft
      rw [remove_at hread hc rfl, Cell.take, takeAt, if_pos hge]
      simp only [Except.map, put_self hc]
    · rw [remove_through hread (isContainer_ref hc) _ hleft, lookup_index hc, hitem]
      rfl

/-- What comes of reading and removing along any path of names and integer positions, whatever is
shared.  Where no list is asked for an item before its first one and no mapping for a position that
is too long to be a name, reading gives something or comes to a gap, and removing ends well; a gap is
reported where the path can be written; a position that no item of a list has holds nothing then, and
removing along the path leaves everything as it is and gives nothing.  Where a list is asked for an
item before its first one, or a mapping for a position that is too long, reading and removing both
fail. -/
theorem position_outcomes (s : Store) (root : Value) (path : Path) :
    (¬ s.Underruns root path → ¬ s.Overlong root path →
      ((∃ v, s.read root path = .ok v) ∨
        ∃ gap, s.GapAt root path gap ∧ s.read root path =
          .error (if path.isWritable then .keyNotFound path gap else .unwritable)) ∧
      (∀ keep, ∃ s' old, s.remove root path keep = .ok (s', old)) ∧
      ∀ gone p xs, s.AsksFor root path gone p xs → offset? xs.length p = none →
        s.read root (gone ++ [.index p]) = .ok .none ∧
          ∀ keep, s.remove root path keep = .ok (s, .none)) ∧
    (s.Underruns root path →
      (∃ fault, s.read root path = .error fault ∧ fault.BeforeFirst) ∧
      ∀ keep, ∃ fault, s.remove root path keep = .error fault ∧ fault.BeforeFirst) ∧
    (s.Overlong root path →
      s.read root path = .error .unwritable ∧
      ∀ keep, s.remove root path keep = .error .unwritable) := by
  refine ⟨fun hunder hlong => ?_, fun h => ⟨read_of_barred h.barred, remove_of_barred h.barred⟩,
    fun h => ⟨?_, fun keep => ?_⟩⟩
  · have hno : ∀ Tells, ¬ s.Barred root path Tells := fun Tells hbarred =>
      hbarred.cases.elim (fun h => hunder h.2) fun h => hlong h.2
    refine ⟨?_, remove_of_not_barred hno, fun gone p xs hasks hnone => ?_⟩
    · refine (read_of_not_barred hno).imp_right ?_
      rintro ⟨gap, hgap⟩
      exact ⟨gap, hgap, by rw [hgap.read, Fault.showing_eq]⟩
    · rcases offset?_eq_none_iff.1 hnone with hge | hneg
      · exact absent_past_end hasks hge
      · exact absurd ⟨gone, p, xs, hasks, hneg⟩ hunder
  · obtain ⟨fault, hread, rfl⟩ := read_of_barred h.barred
    exact hread
  · obtain ⟨fault, hremove, rfl⟩ := remove_of_barred h.barred keep
    exact hremove

/-- The last item of a list, counted from its end, is an empty list, which is asked for its fourth
item.  The third item from the end is one before the first. -/
theorem position_outcomes_from_end :
    ∃ (s : Store) (root : Value),
      s.tree root = .mapping .plain [(.text "a", .list [.leaf (.int 7), .list []])] ∧
      s.AsksFor root [.key "a", .index (-1), .index 3] [.key "a", .index (-1)] 3 [] ∧
      s.read root [.key "a", .index (-1), .index 3] = .ok .none ∧
      s.remove root [.key "a", .index (-1), .index 3] false = .ok (s, .none) ∧
      s.Underruns root [.key "a", .index (-3)] ∧
      ∃ fault, s.read root [.key "a", .index (-3)] = .error fault ∧ fault.BeforeFirst := by
  obtain ⟨s, hs⟩ : ∃ s : Store, s = { Store.empty with cells := #[.list [],
      .list [.ofAtom (.int 7), .ref ⟨0⟩], .mapping .plain [(.text "a", .ref ⟨1⟩)]] } := ⟨_, rfl⟩
  have hread : s.read (.ref ⟨2⟩) [.key "a", .index (-1), .index 3] = .ok .none := by
    subst hs
    cbv
  have hasks : s.AsksFor (.ref ⟨2⟩) [.key "a", .index (-1), .index 3] [.key "a", .index (-1)] 3
      [] := by
    subst hs
    exact ⟨⟨[], rfl⟩, ⟨0⟩, by cbv, rfl⟩
  have hno : ∀ Tells, ¬ s.Barred (.ref ⟨2⟩) [.key "a", .index (-1), .index 3] Tells := by
    intro Tells h
    obtain ⟨fault, hfault, -⟩ := read_of_barred h
    cases hfault.symm.trans hread
  have hunder : s.Underruns (.ref ⟨2⟩) [.key "a", .index (-3)] := by
    subst hs
    exact ⟨[.key "a"], -3, _, ⟨⟨[], rfl⟩, ⟨1⟩, by cbv, rfl⟩, by decide⟩
  obtain ⟨hnone, hremove⟩ := ((position_outcomes s _ _).1 (fun h => hno _ h.barred)
    fun h => hno _ h.barred).2.2 _ _ _ hasks (by decide)
  refine ⟨s, .ref ⟨2⟩, ?_, hasks, hnone, hremove false, hunder,
    ((position_outcomes s _ _).2.1 hunder).1⟩
  subst hs
  cbv

/-- A list of one item has none at the second position from its end, and neither reading nor removing
there finds nothing: both fail. -/
theorem read_before_first_item :
    ∃ s : Store, s.IsFinite (.ref ⟨0⟩) ∧ s.tree (.ref ⟨0⟩) = .list [.leaf (.int 1)] ∧
      offset? 1 (-2) = none ∧
      s.read (.ref ⟨0⟩) [.index (-2)] = .error .indexOutOfRange ∧
      s.remove (.ref ⟨0⟩) [.index (-2)] true = .error .indexOutOfRange ∧
      s.remove (.ref ⟨0⟩) [.index (-2)] false = .error .popOutOfRange :=
  ⟨{ Store.empty with cells := #[.list [.ofAtom (.int 1)]] }, by decide +kernel, rfl, rfl, rfl, rfl,
    rfl⟩

end Store

end PathStore
