import Mathlib
import PathStore.Proofs.Refused

/-!
# The one cell that a write touches

A write goes down through containers as they are until it puts something into a slot: the value, at
the end of its path, or a new container.  From a new container on it finds empty slots only, and all
that it does is done to cells that were not there before (`writeFrom_vacant`).  So among the cells
that were there at most one is changed, by assigning to one slot of it (`Assigned`), and this is so
whatever is shared and however the write ends (`writeFrom_touches`, `writeText_touches`).  A list
whose place a mapping takes is itself left as it is, and the mapping holds its very items (`Placed`).

That no slot of a new container is full is due to texts: no name that is read from one is a run of
digits, so none is among the names under which a mapping has the items of a list.
-/

namespace PathStore

/-! ## Definitions -/

/-- One slot of a cell has been written: an entry holds `w` in its place, or there is one more, last;
an item is `w`, or the list was filled up with nothing and ends in `w`. -/
inductive Cell.SlotWritten : Segment → Value → Cell → Cell → Prop
  | entry {seg : Segment} {w old : Value} {kind : MappingKind} {before after : Entries Value}
      (first : ∀ e ∈ before, e.1 ≠ .text seg.spelling) :
      SlotWritten seg w (mapping kind (before ++ (.text seg.spelling, old) :: after))
        (mapping kind (before ++ (.text seg.spelling, w) :: after))
  | newEntry {seg : Segment} {w : Value} {kind : MappingKind} {entries : Entries Value}
      (absent : ∀ e ∈ entries, e.1 ≠ .text seg.spelling) :
      SlotWritten seg w (mapping kind entries) (mapping kind (entries ++ [(.text seg.spelling, w)]))
  | item {w old : Value} {before after : List Value} :
      SlotWritten (.index before.length) w (list (before ++ old :: after))
        (list (before ++ w :: after))
  | filled {w : Value} {items : List Value} {n : Nat} :
      SlotWritten (.index (items.length + n)) w (list items)
        (list (items ++ List.replicate n .none ++ [w]))

namespace Store

/-- The cells that were there are as they were. -/
def Untouched (s s' : Store) : Prop :=
  ∀ r, r.index < s.size → s'.get? r = s.get? r

/-- Among the cells that were there one has been changed: `w` has been assigned to one slot of it. -/
structure Assigned (s s' : Store) (r : Ref) (seg : Segment) (w : Value) : Prop where
  others : ∀ r', r' ≠ r → r'.index < s.size → s'.get? r' = s.get? r'
  slot : ∃ c c', s.get? r = some c ∧ c.assign w seg = .ok c' ∧ s'.get? r = some c'

/-- What a write of `new` has put into the slot that it has changed, in which `slot` stood: the value
itself at the end of the path, and before the end a new cell, where there was nothing or where a list
had to become a mapping.  The list is still there with its items, and the mapping has the same. -/
inductive Placed (s s' : Store) (new slot : Value) : Path → Value → Prop
  | value : Placed s s' new slot [] new
  | made {next : Segment} {rest : Path} {m : Ref} (vacant : slot.isNone = true)
      (isNew : s.size ≤ m.index) : Placed s s' new slot (next :: rest) (.ref m)
  | converted {name : Text} {rest : Path} {l m : Ref} {items : List Value} {more : Entries Value}
      (isList : slot = .ref l) (was : s.get? l = some (.list items))
      (kept : s'.get? l = some (.list items)) (isNew : s.size ≤ m.index)
      (holds : s'.get? m = some (.mapping .plain (Entries.numbered 0 items ++ more)))
      (further : more = [] ∨ ∃ w, more = [(.text name, w)]) :
      Placed s s' new slot (.key name :: rest) (.ref m)

end Store

/-! ## Assigning to a slot -/

theorem MapKey.ne_of_same_eq_false {k : Text} {k' : MapKey} (h : (MapKey.text k).same k' = false) :
    k' ≠ .text k := by
  intro heq
  rw [MapKey.same_text_iff.2 heq] at h
  cases h

/-- To assign to a written segment is to write its slot. -/
theorem Cell.slotWritten_of_assign {c c' : Cell} {seg : Segment} {w : Value} (hseg : seg.IsWritten)
    (h : c.assign w seg = .ok c') : SlotWritten seg w c c' := by
  obtain ⟨kind, es, rfl, rfl⟩ | ⟨xs, p, ys, rfl, rfl, ha, rfl⟩ := assign_eq_ok h
  · cases hf : Entries.find? (.text seg.spelling) es with
    | none =>
      rw [Entries.insert_of_find?_eq_none hf]
      exact .newEntry fun e he => MapKey.ne_of_same_eq_false (Entries.find?_eq_none hf e he)
    | some old =>
      obtain ⟨es₁, k', es₂, rfl, hk, hne⟩ := Entries.find?_eq_some hf
      rw [Entries.insert_append_cons hne hk, MapKey.same_text_iff.1 hk]
      exact .entry fun e he => MapKey.ne_of_same_eq_false (hne e he)
  · obtain ⟨q, rfl⟩ := Int.eq_ofNat_of_zero_le hseg.1
    obtain ⟨n, hlt, ho, rfl⟩ | ⟨hle, rfl⟩ := assignAt_eq_ok ha
    · rw [offset?_of_nonneg hseg.1 hlt, Int.toNat_natCast] at ho
      cases ho
      have hq : q < xs.length := by omega
      have hlen : (xs.take q).length = q := by
        rw [List.length_take]
        omega
      have hitem := @SlotWritten.item w xs[q] (xs.take q) (xs.drop (q + 1))
      rw [hlen, List.getElem_cons_drop, List.take_append_drop] at hitem
      rw [List.set_eq_take_append_cons_drop, if_pos hq]
      exact hitem
    · have hsum : ((q : Nat) : Int) = ((xs.length : Nat) : Int) + ((q - xs.length : Nat) : Int) := by
        omega
      have hfilled := @SlotWritten.filled w xs (q - xs.length)
      rw [← hsum] at hfilled
      exact hfilled

namespace Store

variable {s s₁ s' : Store} {root cur new slot w : Value} {r : Ref} {seg next : Segment} {c : Cell}
  {path before here rest : Path}

theorem assign_assigned (h : s.assign cur seg w = .ok s') :
    ∃ r, cur = .ref r ∧ Assigned s s' r seg w := by
  obtain ⟨r, c, c', rfl, hc, hca, rfl⟩ := assign_eq_ok h
  refine ⟨r, rfl, fun r' hne _ => ?_, c, c', hc, hca, ?_⟩
  · rw [get?_put, if_neg]
    rintro ⟨heq, -⟩
    exact hne heq.symm
  · exact get?_put_self hc c'

/-- What is left alone afterwards stays as it was after the assignment. -/
theorem Assigned.andThen (h : Assigned s s₁ r seg w)
    (hon : ∀ r', r'.index < s.size → s'.get? r' = s₁.get? r') : Assigned s s' r seg w := by
  obtain ⟨c, c', hc, hca, hc'⟩ := h.slot
  refine ⟨fun r' hne hlt => ?_, c, c', hc, hca, ?_⟩
  · rw [hon r' hlt, h.others r' hne hlt]
  · rw [hon r (get?_lt hc), hc']

/-- A new cell is put into a slot of a cell that was there. -/
theorem replaced_assigned (hr : r.index < s.size)
    (h : (s.alloc c).1.assign (.ref r) seg (s.alloc c).2 = .ok s') :
    Assigned s s' r seg (s.alloc c).2 ∧ s'.size = s.size + 1 := by
  have hold : ∀ r', r'.index < s.size → (s.alloc c).1.get? r' = s.get? r' := by
    intro r' hlt
    rw [get?_alloc, if_neg (by omega)]
  obtain ⟨r', heq, hassigned⟩ := assign_assigned h
  cases heq
  obtain ⟨c₀, c', hc, hca, hc'⟩ := hassigned.slot
  refine ⟨⟨fun r' hne hlt => ?_, c₀, c', ?_, hca, hc'⟩, ?_⟩
  · rw [hassigned.others r' hne (by simp; omega), hold r' hlt]
  · rw [← hold r hr, hc]
  · obtain ⟨-, -, -, -, -, -, rfl⟩ := assign_eq_ok h
    simp

/-! ## Below a new cell -/

/-- A new cell has been put into a slot, and what was done after that was done to no other cell. -/
theorem Assigned.of_replaced (hr : r.index < s.size)
    (h : (s.alloc c).1.assign (.ref r) seg (s.alloc c).2 = .ok s₁)
    (hbelow : Untouched s₁ s' ∨ ∃ w, Assigned s₁ s' ⟨s.size⟩ next w) :
    Assigned s s' r seg (s.alloc c).2 := by
  obtain ⟨hassigned, hsize⟩ := replaced_assigned hr h
  apply hassigned.andThen
  intro r' hr'
  rcases hbelow with hsame | ⟨w, hnew⟩
  · exact hsame r' (by omega)
  · apply hnew.others r' _ (by omega)
    rintro rfl
    exact Nat.lt_irrefl _ hr'

/-- Where the slot is empty a write does nothing to the cells that were there but assign to it. -/
theorem writeFrom_vacant (hr : r.index < s.size) (hl : s.lookup (.ref r) seg = .ok slot)
    (hn : slot.isNone = true) (hw : ∀ x ∈ seg :: rest, x.IsWritten) :
    Untouched s (s.writeFrom path before (.ref r) new (seg :: rest)).store ∨
      ∃ w, Assigned s (s.writeFrom path before (.ref r) new (seg :: rest)).store r seg w := by
  induction rest generalizing s before r seg slot with
  | nil =>
    rw [writeFrom]
    cases ha : s.assign (.ref r) seg new with
    | error fault => exact Or.inl fun _ _ => rfl
    | ok s' =>
      obtain ⟨r', heq, hassigned⟩ := assign_assigned ha
      cases heq
      exact Or.inr ⟨new, hassigned⟩
  | cons next rest ih =>
    have hw' := (List.forall_mem_cons.1 hw).2
    rcases writeFrom_descent s path before (.ref r) new seg next rest with
      ⟨fault, -, hstore, -⟩ | ⟨s₁, child, hdesc, hstore, -⟩
    · rw [hstore]
      exact Or.inl fun _ _ => rfl
    · rw [hstore]
      cases hdesc with
      | fits lookup passage =>
        rw [lookup] at hl
        cases hl
        rw [(passage_fits passage).1] at hn
        cases hn
      | @replaced slot' c _ lookup passage assign =>
        have hlt : ∀ r', Value.ref r = .ref r' → r'.index < s.size := by
          rintro r' ⟨⟩
          exact hr
        obtain ⟨hnew, hnone⟩ := replaced_vacant hlt passage (hw' _ List.mem_cons_self) assign
        have hbelow := @ih s₁ .none ⟨s.size⟩ next (before ++ [seg]) (hnew _ rfl) hnone rfl hw'
        exact Or.inr ⟨_, Assigned.of_replaced hr assign hbelow⟩

/-- What takes the place of what stood in a slot, after a write has gone on from there. -/
theorem placed_of_replaced (hf : s.IsFinite (.ref r)) (hl : s.lookup (.ref r) seg = .ok slot)
    (hp : s.passage slot next = .replace c) (hnext : next.IsWritten)
    (hassigned : Assigned s s' r seg w) (hget : s₁.get? ⟨s.size⟩ = some c)
    (hbelow : Untouched s₁ s' ∨ ∃ w, Assigned s₁ s' ⟨s.size⟩ next w) :
    Placed s s' new slot (next :: rest) (s.alloc c).2 := by
  have hnew : s.size ≤ (⟨s.cells.size⟩ : Ref).index := Nat.le_refl _
  obtain ⟨hn, -⟩ | ⟨l, xs, rfl, hlist, hkey, rfl⟩ := passage_eq_replace hp
  · exact .made hn hnew
  · cases next with
    | index p => cases hkey
    | key k =>
      have hne : l ≠ r := by
        rintro rfl
        exact not_reaches_of_lookup hf hl rfl (Reaches.refl s _)
      have hkept : s'.get? l = some (.list xs) := by
        rw [hassigned.others l hne (get?_lt hlist), hlist]
      rcases hbelow with hbelow | ⟨w', hbelow⟩
      · refine .converted rfl hlist hkept hnew ?_ (Or.inl rfl)
        rw [List.append_nil, ← hget]
        exact hbelow ⟨s.size⟩ (get?_lt hget)
      · obtain ⟨c, c', hc, hca, hc'⟩ := hbelow.slot
        rw [hget] at hc
        cases hc
        cases hca
        refine .converted rfl hlist hkept hnew ?_ (Or.inr ⟨w', rfl⟩)
        -- the name is none of those that the items stand under
        rw [← Entries.insert_of_find?_eq_none (Entries.find?_numbered_of_ne hnext.ne_decimal 0 xs)]
        exact hc'

/-! ## Along the path -/

/-- However a write ends, it has assigned to at most one slot of the cells that were there: to the
first on its path in which it has put something else than was there. -/
theorem writeFrom_touches (hf : s.IsFinite cur) (hw : ∀ x ∈ rest, x.IsWritten) :
    Untouched s (s.writeFrom path before cur new rest).store ∨
      ∃ gone seg left r slot w, rest = gone ++ seg :: left ∧
        s.readFrom path before cur gone = .ok (.ref r) ∧ s.lookup (.ref r) seg = .ok slot ∧
        Assigned s (s.writeFrom path before cur new rest).store r seg w ∧
        Placed s (s.writeFrom path before cur new rest).store new slot left w := by
  induction rest generalizing before cur with
  | nil => exact Or.inl fun _ _ => rfl
  | cons seg rest ih =>
    obtain ⟨hseg, hw⟩ := List.forall_mem_cons.1 hw
    cases rest with
    | nil =>
      rw [writeFrom]
      cases ha : s.assign cur seg new with
      | error fault => exact Or.inl fun _ _ => rfl
      | ok s' =>
        obtain ⟨r, rfl, hassigned⟩ := assign_assigned ha
        obtain ⟨slot, hl⟩ := lookup_isOk hseg s (.ref r)
        exact Or.inr ⟨[], seg, [], r, slot, new, rfl, rfl, hl, hassigned, .value⟩
    | cons next rest =>
      rcases writeFrom_descent s path before cur new seg next rest with
        ⟨fault, -, hstore, -⟩ | ⟨s₁, child, hdesc, hstore, -⟩
      · rw [hstore]
        exact Or.inl fun _ _ => rfl
      · rw [hstore]
        cases hdesc with
        | fits lookup passage =>
          -- the container is gone into as it is, and the slot that is written is further down
          rcases ih (isFinite_of_lookup hf lookup) hw with hon | hon
          · exact Or.inl hon
          · obtain ⟨gone, seg', left, r, slot', w, hsplit, hread, hon⟩ := hon
            have hcur : cur.isNone = false := by
              obtain ⟨r', c, rfl, -⟩ := isContainer_of_lookup lookup (passage_fits passage).1
              rfl
            refine Or.inr ⟨seg :: gone, seg', left, r, slot', w, ?_, ?_, hon⟩
            · rw [hsplit, List.cons_append]
            · rw [readFrom, hcur, lookup]
              exact hread
        | @replaced slot c _ lookup passage assign =>
          have hnext := hw next List.mem_cons_self
          obtain ⟨r, -, -, rfl, -⟩ := assign_eq_ok assign
          have hr : r.index < s.size := hf.closed r (Reaches.refl s _)
          have hlt : ∀ r', Value.ref r = .ref r' → r'.index < s.size := by
            rintro r' ⟨⟩
            exact hr
          obtain ⟨hnew, hnone⟩ := replaced_vacant hlt passage hnext assign
          have hbelow := @writeFrom_vacant s₁ new .none ⟨s.size⟩ next path (before ++ [seg]) rest
            (hnew _ rfl) hnone rfl hw
          have hassigned := Assigned.of_replaced hr assign hbelow
          refine Or.inr ⟨[], seg, next :: rest, r, slot, _, rfl, rfl, lookup, hassigned, ?_⟩
          exact placed_of_replaced hf lookup passage hnext hassigned (replaced_get? hlt assign)
            hbelow

/-- However a write along the path of a text ends, at most one of the cells that were there is
changed, and no other object is.  The changed cell is the container that the path leads to before
some segment of it; only the slot of that segment is written, and what is put there is the value
itself, a new container where there was nothing, or a mapping of the items of a list, which stays as
it was. -/
theorem writeText_touches (hf : s.IsFinite root) (t : Text) (new : Value) :
    SameObjects s (s.writeText root t new).store ∧
    ((∀ r, r.index < s.size → (s.writeText root t new).store.get? r = s.get? r) ∨
      ∃ gone seg left r slot w, Path.read t = .ok (gone ++ seg :: left) ∧
        s.read root gone = .ok (.ref r) ∧ s.lookup (.ref r) seg = .ok slot ∧
        (∀ r', r' ≠ r → r'.index < s.size →
          (s.writeText root t new).store.get? r' = s.get? r') ∧
        (∃ c c', s.get? r = some c ∧ (s.writeText root t new).store.get? r = some c' ∧
          Cell.SlotWritten seg w c c') ∧
        Placed s (s.writeText root t new).store new slot left w) := by
  unfold writeText
  cases hp : Path.read t with
  | error fault => exact ⟨.refl s, Or.inl fun _ _ => rfl⟩
  | ok path =>
    refine ⟨write_sameObjects s root path new, ?_⟩
    have hw := Path.isWritten_of_read hp
    rcases @writeFrom_touches s root new path [] path hf hw with hnone | htouched
    · exact Or.inl hnone
    · obtain ⟨gone, seg, left, r, slot, w, hsplit, hread, hl, hassigned, hplaced⟩ := htouched
      obtain ⟨c, c', hc, hca, hc'⟩ := hassigned.slot
      have hseg : seg.IsWritten := hw seg (by simp [hsplit])
      refine Or.inr ⟨gone, seg, left, r, slot, w, congrArg _ hsplit, ?_, hl, hassigned.others,
        ⟨c, c', hc, hc', Cell.slotWritten_of_assign hseg hca⟩, hplaced⟩
      exact readFrom_ok_congr gone [] hread

/-- One list stands under two names.  A name is set below one of them, and the write fails at a
position that no list can grow to: by then a mapping has taken the place of the list there, and there
only. -/
theorem writeText_touches_shared_list :
    ∃ (s s' : Store) (root : Value),
      s.IsFinite root ∧ s.lookup root (.key "a") = s.lookup root (.key "b") ∧
      s.tree root = .mapping .plain [(.text "a", .list [.leaf (.int 7)]),
        (.text "b", .list [.leaf (.int 7)])] ∧
      s' = (s.writeText root "a.x[9223372036854775807]" (.ofAtom (.int 1))).store ∧
      (s.writeText root "a.x[9223372036854775807]" (.ofAtom (.int 1))).result =
        .error .lengthOverflow ∧
      s'.tree root = .mapping .plain [(.text "a", .mapping .plain [(.text "0", .leaf (.int 7)),
        (.text "x", .list [])]), (.text "b", .list [.leaf (.int 7)])] ∧
      ∃ gone seg left r slot w,
        Path.read "a.x[9223372036854775807]" = .ok (gone ++ seg :: left) ∧
        s.read root gone = .ok (.ref r) ∧ s.lookup (.ref r) seg = .ok slot ∧
        (∀ r', r' ≠ r → r'.index < s.size → s'.get? r' = s.get? r') ∧
        (∃ c c', s.get? r = some c ∧ s'.get? r = some c' ∧ Cell.SlotWritten seg w c c') ∧
        Placed s s' (.ofAtom (.int 1)) slot left w := by
  obtain ⟨s, hs⟩ : ∃ s : Store, s = { Store.empty with cells := #[.list [.ofAtom (.int 7)],
      .mapping .plain [(.text "a", .ref ⟨0⟩), (.text "b", .ref ⟨0⟩)]] } := ⟨_, rfl⟩
  have hf : s.IsFinite (.ref ⟨1⟩) := by
    subst hs
    decide +kernel
  have htouched := (writeText_touches hf "a.x[9223372036854775807]" (.ofAtom (.int 1))).2
  refine ⟨s, _, .ref ⟨1⟩, hf, ?_, ?_, rfl, ?_, ?_, htouched.resolve_left fun hsame => ?_⟩
  · subst hs
    rfl
  · subst hs
    cbv
  · subst hs
    cbv
  · subst hs
    cbv
  · -- the root is not as it was
    have hwas : s.get? ⟨1⟩ =
        some (.mapping .plain [(.text "a", .ref ⟨0⟩), (.text "b", .ref ⟨0⟩)]) := by
      subst hs
      rfl
    have hnow : (s.writeText (.ref ⟨1⟩) "a.x[9223372036854775807]" (.ofAtom (.int 1))).store.get?
        ⟨1⟩ = some (.mapping .plain [(.text "a", .ref ⟨2⟩), (.text "b", .ref ⟨0⟩)]) := by
      subst hs
      cbv
    have hroot := hsame ⟨1⟩ (get?_lt hwas)
    rw [hwas, hnow] at hroot
    simp at hroot

end Store

end PathStore
