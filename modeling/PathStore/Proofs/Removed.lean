import Mathlib
import PathStore.Proofs.Touched

/-!
# What removing takes out

Removing goes down its path by itself and turns back at the first value that is no container, while
reading goes on and finds nothing below such a value (`readFrom_of_not_isContainer`).  So along a
written path both come to the same container, or removing turns back and reading finds nothing
(`holder?_outcome`).  There the slot is closed or emptied if the container has it, and what stood in
it is what reading gives (`Cell.take_of_hasSlot`); a slot that is not there is not made
(`Cell.take_of_not_hasSlot`).  So removing gives what reading gives, and changes the one container
that has the slot or nothing at all (`removeText_takes`), whatever is shared.
-/

namespace PathStore

/-! ## Definitions -/

/-- The container has the slot that a segment addresses: a mapping has an entry under its name, a
list has an item at its position. -/
def Cell.HasSlot : Cell → Segment → Prop
  | mapping _ es, seg => ∃ e ∈ es, e.1 = .text seg.spelling
  | list xs, .index p => 0 ≤ p ∧ p < xs.length
  | _, _ => False

/-- The slot of a segment, in which `old` stood, has been closed or, where it is to be kept, emptied;
all else in the container is as it was, in the same order. -/
inductive Cell.SlotTaken : Bool → Segment → Value → Cell → Cell → Prop
  | entryClosed {seg : Segment} {old : Value} {kind : MappingKind} {before after : Entries Value}
      (first : ∀ e ∈ before, e.1 ≠ .text seg.spelling) :
      SlotTaken false seg old (mapping kind (before ++ (.text seg.spelling, old) :: after))
        (mapping kind (before ++ after))
  | entryEmptied {seg : Segment} {old : Value} {kind : MappingKind} {before after : Entries Value}
      (first : ∀ e ∈ before, e.1 ≠ .text seg.spelling) :
      SlotTaken true seg old (mapping kind (before ++ (.text seg.spelling, old) :: after))
        (mapping kind (before ++ (.text seg.spelling, .none) :: after))
  | itemClosed {old : Value} {before after : List Value} :
      SlotTaken false (.index before.length) old (list (before ++ old :: after))
        (list (before ++ after))
  | itemEmptied {old : Value} {before after : List Value} :
      SlotTaken true (.index before.length) old (list (before ++ old :: after))
        (list (before ++ .none :: after))

/-- The way of `front` leads from the root to the container in cell `r`, which has the slot of the
segment `last`. -/
structure Store.SlotAt (s : Store) (root : Value) (front : Path) (last : Segment) (r : Ref)
    (c : Cell) : Prop where
  leads : s.read root front = .ok (.ref r)
  holds : s.get? r = some c
  has : c.HasSlot last

/-! ## Slots of a cell -/

namespace Cell

variable {c c' : Cell} {seg : Segment} {old : Value} {keep : Bool} {before after : List Value}

theorem lookup_item (old : Value) (before after : List Value) :
    (list (before ++ old :: after)).lookup (.index before.length) = .ok old := by
  rw [lookup, itemAt_of_nonneg (Int.natCast_nonneg _), Int.toNat_natCast]
  simp

theorem take_item (old : Value) (before after : List Value) (keep : Bool) :
    (list (before ++ old :: after)).take keep (.index before.length) =
      .ok (list (before ++ (if keep then [.none] else []) ++ after), old) := by
  have hlt : (before.length : Int) < (before ++ old :: after).length := by simp
  rw [take, takeAt, if_neg (by omega), offset?_of_nonneg (Int.natCast_nonneg _) hlt]
  cases keep with
  | false => simp [Except.map, List.eraseIdx_append_of_length_le]
  | true => simp [Except.map]

/-- A slot that is there holds what is found in it, and taking this out closes or empties the
slot. -/
theorem take_of_hasSlot (hw : seg.IsWritten) (h : c.HasSlot seg) (keep : Bool) :
    ∃ c' old, c.take keep seg = .ok (c', old) ∧ SlotTaken keep seg old c c' ∧
      c.lookup seg = .ok old := by
  cases c with
  | mapping kind es =>
    obtain ⟨e, he, hkey⟩ := h
    cases hf : Entries.find? (.text seg.spelling) es with
    | none =>
      have hne := Entries.find?_eq_none hf e he
      rw [MapKey.same_text_iff.2 hkey] at hne
      cases hne
    | some old =>
      have hl : (mapping kind es).lookup seg = .ok old := by
        rw [lookup_mapping hw.isWritable, hf]
        rfl
      obtain ⟨before, k, after, rfl, hk, hne⟩ := Entries.find?_eq_some hf
      obtain rfl := MapKey.same_text_iff.1 hk
      have hfirst : ∀ e ∈ before, e.1 ≠ .text seg.spelling :=
        fun e he => MapKey.ne_of_same_eq_false (hne e he)
      cases keep with
      | false =>
        refine ⟨_, old, ?_, .entryClosed hfirst, hl⟩
        rw [take_mapping hw.isWritable, Entries.take, hf]
        simp only [Bool.false_eq_true, if_false, Entries.erase_append_cons hne hk]
      | true =>
        refine ⟨_, old, ?_, .entryEmptied hfirst, hl⟩
        rw [take_mapping hw.isWritable, Entries.take, hf]
        simp only [if_true, Entries.insert_append_cons hne hk]
  | list xs =>
    cases seg with
    | key k => exact h.elim
    | index p =>
      obtain ⟨hp, hlt⟩ := h
      obtain ⟨n, rfl⟩ := Int.eq_ofNat_of_zero_le hp
      have hn : n < xs.length := Int.ofNat_lt.1 hlt
      obtain ⟨before, old, after, rfl, rfl⟩ :
          ∃ before old after, xs = before ++ old :: after ∧ before.length = n :=
        ⟨xs.take n, xs[n], xs.drop (n + 1), by simp, by rw [List.length_take]; omega⟩
      cases keep with
      | false =>
        refine ⟨_, old, take_item old before after false, ?_, lookup_item old before after⟩
        simpa using SlotTaken.itemClosed
      | true =>
        refine ⟨_, old, take_item old before after true, ?_, lookup_item old before after⟩
        simpa using SlotTaken.itemEmptied
  | tuple xs => exact h.elim
  | set ks => exact h.elim

theorem HasSlot.isContainer (h : c.HasSlot seg) : c.isContainer = true := by
  cases c with
  | mapping kind es => rfl
  | list xs => rfl
  | _ => exact h.elim

/-- A slot that is not there holds nothing, and there is nothing to take out of it. -/
theorem take_of_not_hasSlot (hw : seg.IsWritten) (h : ¬ c.HasSlot seg) (keep : Bool) :
    c.take keep seg = .ok (c, .none) ∧ c.lookup seg = .ok .none := by
  cases c with
  | mapping kind es =>
    have hf : Entries.find? (.text seg.spelling) es = none := by
      cases hf : Entries.find? (.text seg.spelling) es with
      | none => rfl
      | some old =>
        obtain ⟨before, k, after, rfl, hk, -⟩ := Entries.find?_eq_some hf
        exact absurd ⟨(k, old), by simp, MapKey.same_text_iff.1 hk⟩ h
    constructor
    · rw [take_mapping hw.isWritable, Entries.take, hf]
    · rw [lookup_mapping hw.isWritable, hf]
      rfl
  | list xs =>
    cases seg with
    | key k => exact ⟨rfl, rfl⟩
    | index p =>
      have hp : 0 ≤ p := hw.1
      have hge : (xs.length : Int) ≤ p := by
        by_contra hlt
        exact h ⟨hp, by omega⟩
      refine ⟨by rw [take, takeAt, if_pos hge]; rfl, ?_⟩
      rw [lookup, itemAt, if_neg (by omega)]
  | tuple xs => exact ⟨rfl, rfl⟩
  | set ks => exact ⟨rfl, rfl⟩

/-- A name whose entry has been closed is no longer there, if no two entries have the same key. -/
theorem SlotTaken.not_hasSlot {kind : MappingKind} {es : Entries Value}
    (h : SlotTaken false seg old (mapping kind es) c') (hkeys : (es.map Prod.fst).Nodup) :
    ¬ c'.HasSlot seg := by
  cases h with
  | @entryClosed _ _ _ before after first =>
    rintro ⟨e, he, hkey⟩
    rw [List.map_append, List.map_cons, List.nodup_middle, List.nodup_cons] at hkeys
    rw [← List.map_append] at hkeys
    exact hkeys.1 (List.mem_map.2 ⟨e, he, hkey⟩)

end Cell

/-! ## Along the path -/

namespace Store

variable {s : Store} {root cur v : Value} {r : Ref} {c : Cell} {last seg : Segment}
  {path before front rest : Path} {t : Text}

/-- What is read along a path that goes on is read on from where its first part leads. -/
theorem readFrom_append (h : s.readFrom path before cur front = .ok v) (rest : Path) :
    s.readFrom path before cur (front ++ rest) = s.readFrom path (before ++ front) v rest := by
  induction front generalizing before cur with
  | nil =>
    cases h
    rw [List.nil_append, List.append_nil]
  | cons seg front ih =>
    obtain ⟨hn, slot, hl, h⟩ := readFrom_cons_eq_ok h
    rw [List.cons_append, readFrom, hn, hl]
    simp only [Bool.false_eq_true, if_false]
    rw [ih h, List.append_assoc, List.singleton_append]

/-- What fails on the way fails however the path goes on. -/
theorem readFrom_append_error {fault : Fault}
    (h : s.readFrom path before cur front = .error fault) (rest : Path) :
    s.readFrom path before cur (front ++ rest) = .error fault := by
  induction front generalizing before cur with
  | nil => cases h
  | cons seg front ih =>
    rw [readFrom] at h
    rw [List.cons_append, readFrom]
    cases hn : cur.isNone with
    | true =>
      rw [hn] at h
      exact h
    | false =>
      rw [hn] at h
      cases hl : s.lookup cur seg with
      | error fault' =>
        rw [hl] at h
        exact h
      | ok slot =>
        rw [hl] at h
        exact ih h

/-- A value that is no container has nothing in any slot. -/
theorem lookup_of_not_isContainer (hk : s.isContainer v = false) (seg : Segment) :
    s.lookup v seg = .ok .none := by
  unfold Store.isContainer at hk
  unfold Store.lookup
  cases hc : s.cell? v with
  | none => rfl
  | some c =>
    rw [hc] at hk
    cases c with
    | mapping kind es => cases hk
    | list xs => cases hk
    | _ => rfl

/-- Below a value that is no container nothing is found. -/
theorem readFrom_of_not_isContainer (path before : Path) (hk : s.isContainer cur = false)
    (hne : rest ≠ []) :
    s.readFrom path before cur rest = .ok .none ∨
      ∃ gap, s.readFrom path before cur rest =
        .error (.showing path (.keyNotFound path gap)) := by
  cases rest with
  | nil => exact absurd rfl hne
  | cons seg rest =>
    rw [readFrom, lookup_of_not_isContainer hk]
    cases cur.isNone with
    | true => exact Or.inr ⟨before, rfl⟩
    | false =>
      cases rest with
      | nil => exact Or.inl rfl
      | cons seg' rest => exact Or.inr ⟨before ++ [seg], rfl⟩

theorem not_isContainer_of_readFrom (hk : s.isContainer cur = false)
    (h : s.readFrom path before cur rest = .ok v) : s.isContainer v = false := by
  by_cases hne : rest = []
  · subst hne
    cases h
    exact hk
  · rcases readFrom_of_not_isContainer path before hk hne with hnone | ⟨gap, hgap⟩
    · cases hnone.symm.trans h
      rfl
    · cases hgap.symm.trans h

/-- Removing goes through the containers that reading goes through. -/
theorem holder?_append (h : s.readFrom path before cur front = .ok v)
    (hk : s.isContainer v = true) (hne : rest ≠ []) :
    s.holder? cur (front ++ rest) = s.holder? v rest := by
  induction front generalizing before cur with
  | nil =>
    cases h
    rfl
  | cons seg front ih =>
    obtain ⟨-, slot, hl, h⟩ := readFrom_cons_eq_ok h
    have hslot : s.isContainer slot = true := by
      by_contra hno
      cases hk.symm.trans (not_isContainer_of_readFrom (Bool.eq_false_iff.2 hno) h)
    rw [List.cons_append, holder?, hl]
    · simp only [hslot, if_true]
      exact ih h
    · exact List.append_ne_nil_of_right_ne_nil _ hne

/-- Removing comes to where reading comes before the last segment.  Otherwise it turns back, and
reading comes to no container there and finds nothing in the end, or both come to a value in which
the next segment cannot be looked up. -/
theorem holder?_cases (s : Store) (cur : Value) (path before front : Path) (last : Segment) :
    (∃ v, s.readFrom path before cur front = .ok v ∧
        s.holder? cur (front ++ [last]) = .ok (some v)) ∨
      (s.holder? cur (front ++ [last]) = .ok none ∧
        (∀ v, s.readFrom path before cur front = .ok v → s.isContainer v = false) ∧
        (s.readFrom path before cur (front ++ [last]) = .ok .none ∨
          ∃ gap, s.readFrom path before cur (front ++ [last]) =
            .error (.showing path (.keyNotFound path gap)))) ∨
      ∃ fault gone seg left v, s.holder? cur (front ++ [last]) = .error fault ∧
        front = gone ++ seg :: left ∧ s.readFrom path before cur gone = .ok v ∧
        s.lookup v seg = .error fault := by
  induction front generalizing before cur with
  | nil => exact Or.inl ⟨cur, rfl, rfl⟩
  | cons seg front ih =>
    have hne : front ++ [last] ≠ [] := List.append_ne_nil_of_right_ne_nil _ (List.cons_ne_nil _ _)
    cases hl : s.lookup cur seg with
    | error fault =>
      refine Or.inr (Or.inr ⟨fault, [], seg, front, cur, ?_, rfl, rfl, hl⟩)
      rw [List.cons_append, holder?, hl]
      exact hne
    | ok slot =>
      have hholder : s.holder? cur (seg :: (front ++ [last])) =
          if s.isContainer slot then s.holder? slot (front ++ [last]) else .ok none := by
        rw [holder?, hl]
        simp
      rw [List.cons_append, hholder, readFrom, readFrom, hl]
      cases hk : s.isContainer slot with
      | true =>
        obtain ⟨r, c, rfl, -⟩ := isContainer_of_lookup hl (isNone_of_isContainer hk)
        refine (ih slot (before ++ [seg])).imp_right (Or.imp_right ?_)
        rintro ⟨fault, gone, seg', left, v, hfault, rfl, hread, hl'⟩
        refine ⟨fault, seg :: gone, seg', left, v, hfault, rfl, ?_, hl'⟩
        rw [readFrom, hl]
        exact hread
      | false =>
        refine Or.inr (Or.inl ⟨rfl, ?_⟩)
        cases cur.isNone with
        | true =>
          refine ⟨fun v hv => ?_, Or.inr ⟨before, rfl⟩⟩
          cases hv
        | false =>
          exact ⟨fun v hv => not_isContainer_of_readFrom hk hv,
            readFrom_of_not_isContainer path (before ++ [seg]) hk hne⟩

/-- Along written segments every slot can be looked up. -/
theorem holder?_outcome (s : Store) (cur : Value) (path before : Path)
    (hw : ∀ x ∈ front, x.IsWritten) (last : Segment) :
    (∃ v, s.readFrom path before cur front = .ok v ∧
        s.holder? cur (front ++ [last]) = .ok (some v)) ∨
      s.holder? cur (front ++ [last]) = .ok none ∧
        (∀ v, s.readFrom path before cur front = .ok v → s.isContainer v = false) ∧
        (s.readFrom path before cur (front ++ [last]) = .ok .none ∨
          ∃ gap, s.readFrom path before cur (front ++ [last]) =
            .error (.showing path (.keyNotFound path gap))) := by
  refine (s.holder?_cases cur path before front last).imp_right fun h => h.resolve_right ?_
  rintro ⟨fault, gone, seg, left, v, -, rfl, -, hl⟩
  obtain ⟨w, hw⟩ := lookup_isOk (hw seg (by simp)) s v
  cases hl.symm.trans hw

theorem remove_concat (s : Store) (root : Value) (front : Path) (last : Segment) (keep : Bool) :
    s.remove root (front ++ [last]) keep =
      match s.holder? root (front ++ [last]) with
      | .error fault => .error fault
      | .ok (some (.ref r)) => s.removeSlot r last keep
      | .ok _ => .ok (s, .none) := by
  rewrite [remove, List.getLast?_concat]
  rfl

/-- Where the path leads to a container that has the last slot, what is read there is taken out of
that container. -/
theorem remove_of_slotAt (hw : ∀ x ∈ front, x.IsWritten) (hlast : last.IsWritten)
    (h : s.SlotAt root front last r c) (keep : Bool) :
    ∃ c' old, s.remove root (front ++ [last]) keep = .ok (s.put r c', old) ∧
      Cell.SlotTaken keep last old c c' ∧ s.read root (front ++ [last]) = .ok old := by
  obtain ⟨leads, holds, has⟩ := h
  have hleads := readFrom_ok_congr (front ++ [last]) [] leads
  have hholder : s.holder? root (front ++ [last]) = .ok (some (.ref r)) := by
    rcases s.holder?_outcome root (front ++ [last]) [] hw last with
      ⟨v, hread, hholder⟩ | ⟨-, hno, -⟩
    · cases hread.symm.trans hleads
      exact hholder
    · have hk := hno _ hleads
      rw [isContainer_ref holds, has.isContainer] at hk
      cases hk
  obtain ⟨c', old, htake, htaken, hl⟩ := Cell.take_of_hasSlot hlast has keep
  refine ⟨c', old, ?_, htaken, ?_⟩
  · simp only [remove_concat, hholder, removeSlot, holds, htake, Except.map]
  · have hlookup : s.lookup (.ref r) last = .ok old := by simpa [Store.lookup, cell?, holds] using hl
    rw [Store.read, readFrom_append hleads, readFrom, hlookup]
    rfl

/-- Where the path leads to no container that has the last slot, nothing happens, and nothing is read
there. -/
theorem remove_of_not_slotAt (hw : ∀ x ∈ front, x.IsWritten) (hlast : last.IsWritten)
    (h : ¬ ∃ r c, s.SlotAt root front last r c) (keep : Bool) :
    s.remove root (front ++ [last]) keep = .ok (s, .none) ∧
      (s.read root (front ++ [last]) = .ok .none ∨
        ∃ gap, s.read root (front ++ [last]) =
          .error (.showing (front ++ [last]) (.keyNotFound (front ++ [last]) gap))) := by
  rw [remove_concat]
  rcases s.holder?_outcome root (front ++ [last]) [] hw last with
    ⟨v, hread, hholder⟩ | ⟨hholder, -, hread⟩
  · rw [hholder, Store.read, readFrom_append hread]
    cases v with
    | atom a copy => exact ⟨rfl, readFrom_of_not_isContainer _ _ rfl (List.cons_ne_nil _ _)⟩
    | ref r =>
      cases hc : s.get? r with
      | none =>
        have hk : s.isContainer (.ref r) = false := by simp [Store.isContainer, cell?, hc]
        exact ⟨by simp only [removeSlot, hc],
          readFrom_of_not_isContainer _ _ hk (List.cons_ne_nil _ _)⟩
      | some c =>
        have hno : ¬ c.HasSlot last := fun has =>
          h ⟨r, c, readFrom_ok_congr front [] hread, hc, has⟩
        obtain ⟨htake, hl⟩ := Cell.take_of_not_hasSlot hlast hno keep
        have hlookup : s.lookup (.ref r) last = .ok .none := by
          simpa [Store.lookup, cell?, hc] using hl
        refine ⟨by simp only [removeSlot, hc, htake, Except.map, put_self hc], Or.inl ?_⟩
        rw [readFrom, hlookup]
        rfl
  · rw [hholder]
    exact ⟨rfl, hread⟩

/-- Removing along the path of a text ends well, whatever is shared, and gives what reading along the
path gives, or nothing where reading meets a gap.  Where all but the last segment lead to a container
that has the last slot, this container alone is changed: the slot is closed or, if it is to be kept,
emptied.  Otherwise nothing is changed. -/
theorem removeText_takes (s : Store) (root : Value) (keep : Bool)
    (hp : Path.read t = .ok (front ++ [last])) :
    ∃ s' old, s.removeText root t keep = .ok (s', old) ∧
      (s.readText root t = .ok old ∨ old = .none ∧
        ∃ gap, s.readText root t = .error (.keyNotFound (front ++ [last]) gap)) ∧
      ((¬ ∃ r c, s.SlotAt root front last r c) → s' = s) ∧
      ∀ r c, s.SlotAt root front last r c →
        ∃ c', s' = s.put r c' ∧ Cell.SlotTaken keep last old c c' ∧
          ∀ kind es, keep = false → c = .mapping kind es → (es.map Prod.fst).Nodup →
            ¬ c'.HasSlot last := by
  have hpath := Path.isWritable_of_read hp
  obtain ⟨hw, hlast⟩ := List.forall_mem_append.1 (Path.isWritten_of_read hp)
  replace hlast := List.forall_mem_singleton.1 hlast
  simp only [removeText, readText, hp]
  by_cases hslot : ∃ r c, s.SlotAt root front last r c
  · obtain ⟨r, c, hslot⟩ := hslot
    obtain ⟨c', old, hrem, htaken, hread⟩ := remove_of_slotAt hw hlast hslot keep
    refine ⟨_, old, hrem, Or.inl hread, fun hno => absurd ⟨r, c, hslot⟩ hno, ?_⟩
    intro r' c'' hslot'
    cases hslot.leads.symm.trans hslot'.leads
    cases hslot.holds.symm.trans hslot'.holds
    refine ⟨c', rfl, htaken, ?_⟩
    rintro kind es rfl rfl hkeys
    exact htaken.not_hasSlot hkeys
  · obtain ⟨hrem, hread⟩ := remove_of_not_slotAt hw hlast hslot keep
    simp only [Fault.showing_of_isWritable hpath] at hread
    exact ⟨s, .none, hrem, hread.imp_right fun hgap => ⟨rfl, hgap⟩, fun _ => rfl,
      fun r c hslot' => absurd ⟨r, c, hslot'⟩ hslot⟩

/-- One list stands under two names, with nothing in its middle.  What is taken out below one of them
is gone below both, though nothing stood there, and the item after it has moved down. -/
theorem removeText_takes_from_shared_list :
    ∃ (s s' : Store) (root : Value) (c' : Cell),
      s.lookup root (.key "a") = s.lookup root (.key "b") ∧
      s.tree root = .mapping .plain [(.text "a", .list [.leaf (.int 7), .leaf .none, .list []]),
        (.text "b", .list [.leaf (.int 7), .leaf .none, .list []])] ∧
      s.removeText root "b[1]" false = .ok (s', .none) ∧
      s.readText root "b[1]" = .ok .none ∧ s' = s.put ⟨1⟩ c' ∧
      Cell.SlotTaken false (.index 1) .none
        (.list [.ofAtom (.int 7), .none, .ref ⟨0⟩]) c' ∧
      s'.tree root = .mapping .plain [(.text "a", .list [.leaf (.int 7), .list []]),
        (.text "b", .list [.leaf (.int 7), .list []])] ∧
      s.removeText root "b[1].x" false = .ok (s, .none) := by
  obtain ⟨s, hs⟩ : ∃ s : Store, s = { Store.empty with cells := #[.list [],
      .list [.ofAtom (.int 7), .none, .ref ⟨0⟩],
      .mapping .plain [(.text "a", .ref ⟨1⟩), (.text "b", .ref ⟨1⟩)]] } := ⟨_, rfl⟩
  have hpath : Path.read "b[1]" = .ok ([.key "b"] ++ [.index 1]) := by cbv
  obtain ⟨s', old, hrem, hread, -, htaken⟩ := removeText_takes s (.ref ⟨2⟩) false hpath
  have hslot : s.SlotAt (.ref ⟨2⟩) [.key "b"] (.index 1) ⟨1⟩
      (.list [.ofAtom (.int 7), .none, .ref ⟨0⟩]) := by
    subst hs
    exact ⟨by cbv, rfl, by simp [Cell.HasSlot]⟩
  obtain ⟨c', hs', hc', -⟩ := htaken _ _ hslot
  have hat : s.removeText (.ref ⟨2⟩) "b[1]" false =
      .ok (s.put ⟨1⟩ (.list [.ofAtom (.int 7), .ref ⟨0⟩]), .none) := by
    subst hs
    cbv
  obtain ⟨rfl, rfl⟩ := Prod.mk.inj (Except.ok.inj (hrem.symm.trans hat))
  refine ⟨s, _, .ref ⟨2⟩, c', ?_, ?_, hrem, ?_, hs', hc', ?_, ?_⟩
  · subst hs
    rfl
  · subst hs
    cbv
  · subst hs
    cbv
  · subst hs
    cbv
  · subst hs
    cbv

end Store

end PathStore
