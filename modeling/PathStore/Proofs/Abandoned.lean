import PathStore.Proofs.Opened

/-!
# What a failed write leaves behind

A write that fails is given up where it stands (`Store.Stopped`): it has gone down through containers
as they are, and may have put new containers into slots on its way, which stay.  Nothing else has
happened: all the tree held keeps its place (`Store.Stopped.opens`), and only containers on the path
are changed (`Store.Stopped.changed`).  Where the path comes to no slot that a new container can be
put into, nothing at all has happened (`Store.Stopped.unchanged`).  Once a new container has been put
into a slot, only positions can be at fault, unless a name leads back to an item of a list that became
a mapping (`Store.Stopped.ofPosition_of_vacant`).  A position that has too many digits to be a name in
a mapping, or to be shown in a report, is a fault of its own.
-/

namespace PathStore

/-- The fault is one of a position: it lies before the first item of a list, or too far behind the
last one. -/
def Fault.OfPosition : Fault → Prop
  | indexOutOfRange => True
  | assignmentOutOfRange => True
  | indexUnderflow => True
  | lengthOverflow => True
  | outOfMemory => True
  | _ => False

/-- The fault is that a value has no slot of the kind that was to be assigned to. -/
def Fault.OfAssignment : Fault → Prop
  | notAssignable _ _ => True
  | _ => False

/-- The fault is that a value that is no container stands in the way. -/
def Fault.OfRawValue : Fault → Prop
  | rawValue _ _ _ => True
  | _ => False

/-- The fault is one of a slot that the segment addresses: it could not be looked up in a value, or
not be assigned to in a value that can hold it. -/
def Segment.Fails (seg : Segment) (fault : Fault) : Prop :=
  ∃ (s : Store) (v : Value), s.lookup v seg = .error fault ∨
    s.passage v seg = .fits ∧ ∃ x, s.assign v seg x = .error fault

namespace Store

variable {s s₁ s' : Store} {root cur new slot child v x : Value} {r : Ref} {seg next : Segment}
  {path before here rest : Path} {c : Cell} {fault : Fault}

/-! ## Definitions -/

/-- A write of a path that goes on from a value to a segment and the rest has been given up, which has
left the second store: the last segment cannot be assigned to, or the way down is barred, or it leads
one level down, through a container as it is or into a new one, and ends below. -/
inductive Stopped (path : Path) (new : Value) :
    Store → Value → Segment → Path → Store → Fault → Prop
  | last {s : Store} {cur : Value} {seg : Segment} {fault : Fault}
      (assign : s.assign cur seg new = .error fault) : Stopped path new s cur seg [] s fault
  | stuck {s : Store} {cur : Value} {seg next : Segment} {here rest : Path} {fault : Fault}
      (descent : Descent s path here cur seg next s (.error fault)) :
      Stopped path new s cur seg (next :: rest) s fault
  | through {s s' : Store} {cur slot : Value} {seg next : Segment} {rest : Path} {fault : Fault}
      (lookup : s.lookup cur seg = .ok slot) (passage : s.passage slot next = .fits)
      (below : Stopped path new s slot next rest s' fault) :
      Stopped path new s cur seg (next :: rest) s' fault
  | replaced {s s₁ s' : Store} {cur slot : Value} {seg next : Segment} {c : Cell} {rest : Path}
      {fault : Fault} (lookup : s.lookup cur seg = .ok slot)
      (passage : s.passage slot next = .replace c)
      (assign : (s.alloc c).1.assign cur seg (s.alloc c).2 = .ok s₁)
      (below : Stopped path new s₁ (s.alloc c).2 next rest s' fault) :
      Stopped path new s cur seg (next :: rest) s' fault

/-- On the path there is a slot in which a new container can take the place of what stands there:
nothing, or a list where a name comes next. -/
def CanOpen (s : Store) (root : Value) (path : Path) : Prop :=
  ∃ gone seg next left cur slot c s', path = gone ++ seg :: next :: left ∧
    s.read root gone = .ok cur ∧ s.lookup cur seg = .ok slot ∧
    s.passage slot next = .replace c ∧ (s.alloc c).1.assign cur seg (s.alloc c).2 = .ok s'

/-- On the path, after its start, there is a list, and the next segment is a name that is written as
the position of one of its items. -/
def NamesItem (s : Store) (root : Value) (path : Path) : Prop :=
  ∃ gone name left l xs n, path = gone ++ .key name :: left ∧ gone ≠ [] ∧
    s.read root gone = .ok (.ref l) ∧ s.get? l = some (.list xs) ∧ n < xs.length ∧
    name = Text.decimal n

/-- The value is a container that can hold the segment, under a name if it is a mapping, and nothing
stands in the slot. -/
structure Vacant (s : Store) (cur : Value) (seg : Segment) : Prop where
  fits : s.passage cur seg = .fits
  named : s.lookup cur seg ≠ .error .unwritable
  nothing : ∀ v, s.lookup cur seg = .ok v → v.isNone = true

/-- A write that fails has been given up. -/
theorem stopped_of_writeFrom
    (h : (s.writeFrom path before cur new (seg :: rest)).result = .error fault) :
    Stopped path new s cur seg rest (s.writeFrom path before cur new (seg :: rest)).store fault := by
  induction rest generalizing s before cur seg with
  | nil =>
    rw [writeFrom] at h ⊢
    cases ha : s.assign cur seg new with
    | ok s' =>
      rw [ha] at h
      cases h
    | error fault' =>
      rw [ha] at h
      cases h
      exact .last ha
  | cons next rest ih =>
    rcases writeFrom_descent s path before cur new seg next rest with
      ⟨fault', hdesc, hstore, hresult⟩ | ⟨s₁, child, hdesc, hstore, hresult⟩
    · cases h.symm.trans hresult
      rw [hstore]
      exact .stuck hdesc
    · have hbelow := ih (hresult.symm.trans h)
      rw [hstore]
      cases hdesc with
      | fits lookup passage => exact .through lookup passage hbelow
      | replaced lookup passage assign => exact .replaced lookup passage assign hbelow

/-! ## Faults -/

theorem not_ofPosition_unwritable : ¬ Fault.unwritable.OfPosition :=
  id

theorem ofPosition_of_itemAt {xs : List Value} {p : Int}
    (h : itemAt .none xs p = .error fault) : fault.OfPosition := by
  unfold itemAt at h
  split at h
  · split at h
    · cases h
    · cases h
      unfold beforeFirst
      split <;> trivial
  · cases h

theorem ofPosition_of_assignAt {xs : List Value} {p : Int}
    (h : assignAt .none xs p new = .error fault) : fault.OfPosition := by
  have hmem := fault_of_assignAt h
  simp only [List.mem_cons, List.not_mem_nil, or_false] at hmem
  rcases hmem with rfl | rfl | rfl | rfl <;> trivial

/-- Only a position can be at fault when a slot is read. -/
theorem fault_of_lookup (h : s.lookup cur seg = .error fault) :
    fault.OfPosition ∨ seg.isWritable = false ∧ fault = .unwritable := by
  unfold Store.lookup at h
  split at h
  · next c _ =>
    cases c with
    | mapping kind es =>
      cases hw : seg.isWritable with
      | true => cases (Cell.lookup_mapping hw kind es).symm.trans h
      | false =>
        rw [Cell.lookup, Segment.name_of_not_isWritable hw] at h
        exact Or.inr ⟨rfl, (Except.error.inj h).symm⟩
    | list xs =>
      cases seg with
      | index p => exact Or.inl (ofPosition_of_itemAt h)
      | key k => cases h
    | _ => cases h
  · cases h

/-- What can hold a segment is a mapping, or a list if the segment is a position. -/
theorem passage_eq_fits (h : s.passage cur seg = .fits) :
    ∃ r c, cur = .ref r ∧ s.get? r = some c ∧
      ((∃ kind es, c = .mapping kind es) ∨ ∃ xs p, c = .list xs ∧ seg = .index p) := by
  unfold passage at h
  split at h
  · cases h
  · cases cur with
    | atom a copy => cases seg <;> cases h
    | ref r =>
      cases hc : s.get? r with
      | none => simp [cell?, hc] at h
      | some c =>
        refine ⟨r, c, rfl, hc, ?_⟩
        cases c with
        | mapping kind es => exact Or.inl ⟨kind, es, rfl⟩
        | list xs =>
          cases seg with
          | index p => exact Or.inr ⟨xs, p, rfl, rfl⟩
          | key k => simp [cell?, hc] at h
        | _ => simp [cell?, hc] at h

theorem lt_size_of_fits (h : s.passage cur seg = .fits) :
    ∀ r, cur = .ref r → r.index < s.size := by
  rintro r rfl
  obtain ⟨r, c, hr, hc, -⟩ := passage_eq_fits h
  cases hr
  exact get?_lt hc

/-- Where a value can hold a segment, only a position can be at fault when the slot is assigned to; one
that has too many digits cannot be looked up there either. -/
theorem fault_of_assign_of_fits (hfits : s.passage cur seg = .fits)
    (h : s.assign cur seg x = .error fault) :
    fault.OfPosition ∨
      seg.isWritable = false ∧ fault = .unwritable ∧ s.lookup cur seg = .error .unwritable := by
  obtain ⟨r, c, rfl, hc, ⟨kind, es, rfl⟩ | ⟨xs, p, rfl, rfl⟩⟩ := passage_eq_fits hfits
  · cases hw : seg.isWritable with
    | true => simp [assign, hc, Cell.assign_mapping hw, Except.map] at h
    | false =>
      have hname := Segment.name_of_not_isWritable hw
      simp only [assign, hc, Cell.assign, hname, Except.map, Except.error.injEq] at h
      exact Or.inr ⟨rfl, h.symm, by simp only [Store.lookup, cell?, hc, Cell.lookup, hname]; rfl⟩
  · simp only [assign, hc, Cell.assign] at h
    cases hx : assignAt .none xs p x with
    | ok ys => simp [hx, Except.map] at h
    | error fault' =>
      obtain rfl : fault' = fault := by simpa [hx, Except.map] using h
      exact Or.inl (ofPosition_of_assignAt hx)

/-- Only a position can be at fault in a slot. -/
theorem fault_of_fails (h : seg.Fails fault) :
    fault.OfPosition ∨ seg.isWritable = false ∧ fault = .unwritable := by
  obtain ⟨s, v, hl | ⟨hfits, x, ha⟩⟩ := h
  · exact fault_of_lookup hl
  · exact (fault_of_assign_of_fits hfits ha).imp_right fun ⟨hw, hfault, _⟩ => ⟨hw, hfault⟩

/-- Where a slot cannot be assigned to, a position is at fault, or there is no such slot, or the
segment cannot be written. -/
theorem fault_of_assign (h : s.assign cur seg x = .error fault) :
    fault.OfPosition ∨ fault.OfAssignment ∨ seg.isWritable = false ∧ fault = .unwritable := by
  rcases assign_eq_error h with ⟨xs, p, -, hx⟩ | ⟨kind, rfl⟩ | hw
  · exact Or.inl (ofPosition_of_assignAt hx)
  · exact Or.inr (Or.inl trivial)
  · exact Or.inr (Or.inr hw)

/-- A value that is in the way is reported if the path can be written. -/
theorem fault_of_blocked (path here : Path) (next : Segment) :
    (Fault.showing path (.rawValue path here next)).OfRawValue ∨
      path.isWritable = false ∧ Fault.showing path (.rawValue path here next) = .unwritable := by
  rcases Fault.showing_eq_or path (.rawValue path here next) with heq | hw
  · rw [heq]
    exact Or.inl trivial
  · exact Or.inr hw

/-! ## New containers -/

theorem passage_congr (h : s'.get? r = s.get? r) (seg : Segment) :
    s'.passage (.ref r) seg = s.passage (.ref r) seg := by
  simp only [passage, cell?, h]

/-- What can hold a segment can still hold it beside a new container, and has the same in its slot. -/
theorem passage_alloc (hfits : s.passage cur seg = .fits) (c : Cell) :
    (s.alloc c).1.passage cur seg = .fits ∧
      (s.alloc c).1.lookup cur seg = s.lookup cur seg := by
  obtain ⟨r, c₀, rfl, hc₀, -⟩ := passage_eq_fits hfits
  have hget : (s.alloc c).1.get? r = s.get? r := (grows_alloc s c r c₀ hc₀).trans hc₀.symm
  exact ⟨(passage_congr hget seg).trans hfits, by simp only [Store.lookup, cell?, hget]⟩

/-- The new container that takes a slot can hold the next segment. -/
theorem replaced_fits (hcur : ∀ r, cur = .ref r → r.index < s.size)
    (hp : s.passage slot next = .replace c)
    (ha : (s.alloc c).1.assign cur seg (s.alloc c).2 = .ok s₁) :
    s₁.passage (s.alloc c).2 next = .fits := by
  have hget : s₁.get? ⟨s.size⟩ = some c := replaced_get? hcur ha
  have hcell : s₁.cell? (s.alloc c).2 = some c := hget
  unfold passage
  rw [hcell]
  obtain ⟨-, rfl⟩ | ⟨l, xs, -, -, -, rfl⟩ := passage_eq_replace hp
  · cases next <;> rfl
  · rfl

theorem replaced_lookup (hcur : ∀ r, cur = .ref r → r.index < s.size)
    (ha : (s.alloc c).1.assign cur seg (s.alloc c).2 = .ok s₁) (next : Segment) :
    s₁.lookup (s.alloc c).2 next = c.lookup next := by
  have hget : s₁.get? ⟨s.size⟩ = some c := replaced_get? hcur ha
  have hcell : s₁.cell? (s.alloc c).2 = some c := hget
  rw [Store.lookup, hcell]

theorem lookup_fresh (h : (fresh next).lookup next = .ok v) : v.isNone = true := by
  cases next with
  | key k =>
    cases h
    rfl
  | index p =>
    rcases itemAt_mem h with rfl | hm
    · rfl
    · cases hm

/-- A new mapping is only made for a name. -/
theorem named_fresh (next : Segment) : (fresh next).lookup next ≠ .error .unwritable := by
  intro h
  cases next with
  | key k => cases h
  | index p => exact not_ofPosition_unwritable (ofPosition_of_itemAt h)

/-- A new container in the place of nothing is vacant. -/
theorem vacant_of_made (hcur : ∀ r, cur = .ref r → r.index < s.size)
    (hp : s.passage slot next = .replace c) (hn : slot.isNone = true)
    (ha : (s.alloc c).1.assign cur seg (s.alloc c).2 = .ok s₁) :
    Vacant s₁ (s.alloc c).2 next := by
  obtain ⟨-, rfl⟩ | ⟨l, xs, rfl, -⟩ := passage_eq_replace hp
  · have hl := replaced_lookup hcur ha next
    exact ⟨replaced_fits hcur hp ha, hl ▸ named_fresh next, fun v hv => lookup_fresh (hl ▸ hv)⟩
  · cases hn

/-! ## Writes that have been given up -/

/-- Where a value can hold the first segment, a value is in the way, which is reported if the path can
be written, or a segment of the path fails in a container that can hold it. -/
theorem Stopped.fails_of_fits (h : Stopped path new s cur seg rest s' fault)
    (hfits : s.passage cur seg = .fits) :
    fault.OfRawValue ∨ path.isWritable = false ∧ fault = .unwritable ∨
      ∃ x ∈ seg :: rest, x.Fails fault := by
  induction h with
  | @last s cur seg fault assign =>
    exact Or.inr (Or.inr ⟨seg, List.mem_cons_self, s, cur, Or.inr ⟨hfits, new, assign⟩⟩)
  | @stuck s cur seg next here rest fault descent =>
    cases descent with
    | astray lookup => exact Or.inr (Or.inr ⟨seg, List.mem_cons_self, s, cur, Or.inl lookup⟩)
    | blocked => exact (fault_of_blocked path here next).imp_right Or.inl
    | refused lookup passage assign =>
      exact Or.inr (Or.inr ⟨seg, List.mem_cons_self, _, cur,
        Or.inr ⟨(passage_alloc hfits _).1, _, assign⟩⟩)
  | through lookup passage _ ih =>
    refine (ih passage).imp_right (Or.imp_right ?_)
    rintro ⟨x, hx, hfails⟩
    exact ⟨x, List.mem_cons_of_mem _ hx, hfails⟩
  | replaced lookup passage assign _ ih =>
    refine (ih (replaced_fits (lt_size_of_fits hfits) passage assign)).imp_right (Or.imp_right ?_)
    rintro ⟨x, hx, hfails⟩
    exact ⟨x, List.mem_cons_of_mem _ hx, hfails⟩

/-- The fault is that something has to be written that cannot be: the path in a report, or one of the
segments that were still to come. -/
def OfWriting (path left : Path) (fault : Fault) : Prop :=
  fault = .unwritable ∧ (path.isWritable = false ∨ left.isWritable = false)

theorem OfWriting.of_head (h : seg.isWritable = false ∧ fault = .unwritable) :
    OfWriting path (seg :: rest) fault :=
  ⟨h.2, Or.inr (Path.isWritable_eq_false_of_mem List.mem_cons_self h.1)⟩

theorem OfWriting.cons (h : OfWriting path rest fault) : OfWriting path (seg :: rest) fault := by
  refine ⟨h.1, h.2.imp_right fun hw => ?_⟩
  rw [Path.isWritable_cons, hw, Bool.and_false]

/-- Where a value can hold the first segment, a position is at fault or a value in the way, or
something cannot be written. -/
theorem Stopped.fault_of_fits (h : Stopped path new s cur seg rest s' fault)
    (hfits : s.passage cur seg = .fits) :
    fault.OfPosition ∨ fault.OfRawValue ∨ OfWriting path (seg :: rest) fault := by
  rcases h.fails_of_fits hfits with hraw | ⟨hw, hfault⟩ | ⟨x, hx, hfails⟩
  · exact Or.inr (Or.inl hraw)
  · exact Or.inr (Or.inr ⟨hfault, Or.inl hw⟩)
  · rcases fault_of_fails hfails with hposition | ⟨hw, hfault⟩
    · exact Or.inl hposition
    · exact Or.inr (Or.inr ⟨hfault, Or.inr (Path.isWritable_eq_false_of_mem hx hw)⟩)

/-- Where nothing stands in the slot of the first segment, only a position can be at fault. -/
theorem Stopped.ofPosition_of_vacant (h : Stopped path new s cur seg rest s' fault)
    (hv : Vacant s cur seg) : fault.OfPosition := by
  induction h with
  | last assign =>
    exact (fault_of_assign_of_fits hv.fits assign).resolve_right fun h => hv.named h.2.2
  | @stuck s cur seg next here rest fault descent =>
    cases descent with
    | astray lookup =>
      exact (fault_of_lookup lookup).resolve_right fun h => hv.named (h.2 ▸ lookup)
    | blocked lookup passage =>
      have hn := hv.nothing _ lookup
      rw [(passage_eq_blocked passage).1] at hn
      cases hn
    | @refused slot c _ lookup passage assign =>
      obtain ⟨hfits, hl⟩ := passage_alloc hv.fits c
      exact (fault_of_assign_of_fits hfits assign).resolve_right fun h =>
        hv.named (hl.symm.trans h.2.2)
  | through lookup passage =>
    have hn := hv.nothing _ lookup
    rw [(passage_fits passage).1] at hn
    cases hn
  | replaced lookup passage assign _ ih =>
    exact ih (vacant_of_made (lt_size_of_fits hv.fits) passage (hv.nothing _ lookup) assign)

theorem Stopped.fault_cases (h : Stopped path new s cur seg rest s' fault) (hf : s.IsFinite cur) :
    fault.OfPosition ∨ fault.OfAssignment ∨ fault.OfRawValue ∨
      OfWriting path (seg :: rest) fault := by
  cases h with
  | last assign =>
    exact (fault_of_assign assign).imp_right (Or.imp_right fun hw => Or.inr (.of_head hw))
  | @stuck _ _ _ next here _ _ descent =>
    cases descent with
    | astray lookup =>
      exact (fault_of_lookup lookup).imp_right fun hw => Or.inr (Or.inr (.of_head hw))
    | blocked =>
      refine Or.inr (Or.inr ((fault_of_blocked path here next).imp_right ?_))
      exact fun ⟨hw, hfault⟩ => ⟨hfault, Or.inl hw⟩
    | refused lookup passage assign =>
      exact (fault_of_assign assign).imp_right (Or.imp_right fun hw => Or.inr (.of_head hw))
  | through lookup passage below =>
    exact (below.fault_of_fits passage).imp_right fun h => Or.inr (h.imp_right .cons)
  | replaced lookup passage assign below =>
    have hfits := replaced_fits hf.lt_size passage assign
    exact (below.fault_of_fits hfits).imp_right fun h => Or.inr (h.imp_right .cons)

/-- That a value has no such slot is found out at the start only. -/
theorem Stopped.unchanged_of_assignment (h : Stopped path new s cur seg rest s' fault)
    (hf : s.IsFinite cur) (hfault : fault.OfAssignment) : s' = s := by
  have hno : ∀ left, ¬ (fault.OfPosition ∨ fault.OfRawValue ∨ OfWriting path left fault) := by
    intro left
    cases fault <;> simp_all [Fault.OfAssignment, Fault.OfPosition, Fault.OfRawValue, OfWriting]
  cases h with
  | last | stuck => rfl
  | through lookup passage below =>
    exact absurd (below.fault_of_fits passage) (hno _)
  | replaced lookup passage assign below =>
    exact absurd (below.fault_of_fits (replaced_fits hf.lt_size passage assign)) (hno _)

theorem read_cons (hl : s.lookup cur seg = .ok slot) (hcur : cur.isNone = false)
    (h : s.read slot rest = .ok v) : s.read cur (seg :: rest) = .ok v := by
  rw [read, readFrom, hcur, hl]
  exact readFrom_ok_congr _ _ h

/-- Where no new container can be put into a slot on the path, nothing has happened. -/
theorem Stopped.unchanged (h : Stopped path new s cur seg rest s' fault) :
    s' = s ∨ s.CanOpen cur (seg :: rest) := by
  induction h with
  | last | stuck => exact Or.inl rfl
  | @through s s' cur slot seg next rest fault lookup passage _ ih =>
    refine ih.imp_right ?_
    rintro ⟨gone, seg', next', left, cur', slot', c, s₁, hpath, hread, hopen⟩
    obtain ⟨r, c₀, rfl, -⟩ := isContainer_of_lookup lookup (passage_fits passage).1
    exact ⟨seg :: gone, seg', next', left, cur', slot', c, s₁, congrArg _ hpath,
      read_cons lookup rfl hread, hopen⟩
  | replaced lookup passage assign =>
    exact Or.inr ⟨[], _, _, _, _, _, _, _, rfl, rfl, lookup, passage, assign⟩

/-- Where no name on the path leads to an item of a list that becomes a mapping, what is no fault of a
position in a list is found out before anything has happened. -/
theorem Stopped.unchanged_of_not_ofPosition (h : Stopped path new s cur seg rest s' fault)
    (hf : s.IsFinite cur) (hfault : ¬ fault.OfPosition) :
    s' = s ∨ s.NamesItem cur (seg :: rest) := by
  induction h with
  | last | stuck => exact Or.inl rfl
  | @through s s' cur slot seg next rest fault lookup passage _ ih =>
    refine (ih (isFinite_of_lookup hf lookup) hfault).imp_right ?_
    rintro ⟨gone, name, left, l, xs, n, hpath, hne, hread, hlist⟩
    obtain ⟨r, c₀, rfl, -⟩ := isContainer_of_lookup lookup (passage_fits passage).1
    exact ⟨seg :: gone, name, left, l, xs, n, congrArg _ hpath, List.cons_ne_nil _ _,
      read_cons lookup rfl hread, hlist⟩
  | @replaced s s₁ s' cur slot seg next c rest fault lookup passage assign below ih =>
    cases hn : slot.isNone with
    | true =>
      have hvacant := vacant_of_made hf.lt_size passage hn assign
      exact absurd (below.ofPosition_of_vacant hvacant) hfault
    | false =>
      obtain ⟨hn', -⟩ | ⟨l, xs, rfl, hc, hkey, rfl⟩ := passage_eq_replace passage
      · rw [hn'] at hn
        cases hn
      · cases next with
        | index p => cases hkey
        | key name =>
          by_cases hname : ∃ n, n < xs.length ∧ name = Text.decimal n
          · obtain ⟨n, hlt, rfl⟩ := hname
            obtain ⟨r, c₀, rfl, -⟩ := isContainer_of_lookup lookup rfl
            exact Or.inr ⟨[seg], _, rest, l, xs, n, rfl, List.cons_ne_nil _ _,
              read_cons lookup rfl rfl, hc, hlt, rfl⟩
          · -- no item stands under the name in the mapping
            have hl : s₁.lookup (s.alloc (.mapping .plain (Entries.numbered 0 xs))).2 (.key name) =
                .ok .none := by
              rw [replaced_lookup hf.lt_size assign, Cell.lookup_mapping rfl, Segment.spelling_key,
                Entries.find?_numbered_eq_none hname]
              rfl
            refine absurd (below.ofPosition_of_vacant
              ⟨replaced_fits hf.lt_size passage assign, ?_, fun v hv => ?_⟩) hfault
            · rw [hl]
              exact fun h => nomatch h
            · cases hl.symm.trans hv
              rfl

/-- Giving up leaves all that was there in its place. -/
theorem Stopped.opens (h : Stopped path new s cur seg rest s' fault) (hf : s.IsFinite cur) :
    Opens s s' := by
  induction h with
  | last | stuck => exact .refl _
  | through lookup _ _ ih => exact ih (isFinite_of_lookup hf lookup)
  | replaced lookup passage assign _ ih =>
    exact (opens_of_replaced hf lookup passage assign).trans
      (ih (replaced_leads hf lookup passage assign).1.child_isFinite)

theorem Stopped.edit (h : Stopped path new s cur seg rest s' fault) : Edit s s' cur .none := by
  induction h with
  | last | stuck => exact .refl _ _ _
  | through lookup passage _ ih => exact ih.below (lookup_reaches lookup (passage_fits passage).1)
  | replaced lookup passage assign _ ih =>
    exact (replaced_edit lookup passage assign).trans (assign_reaches assign) ih fun w hw =>
      Or.inr (Or.inr (Or.inl hw.eq_of_atom))

/-- Only containers that the path leads to are changed. -/
theorem Stopped.changed (h : Stopped path new s cur seg rest s' fault) (hf : s.IsFinite cur)
    (hr : r.index < s.size) :
    s'.get? r = s.get? r ∨
      ∃ gone left, seg :: rest = gone ++ left ∧ s'.read cur gone = .ok (.ref r) := by
  induction h with
  | last | stuck => exact Or.inl rfl
  | @through s s' cur slot seg next rest fault lookup passage below ih =>
    have hleads : s.Leads cur seg slot := ⟨hf, lookup, (passage_fits passage).2⟩
    refine (ih hleads.child_isFinite hr).imp_right ?_
    rintro ⟨gone, left, hpath, hread⟩
    refine ⟨seg :: gone, left, congrArg _ hpath, ?_⟩
    exact read_cons ((hleads.lookup_edit below.edit seg).trans lookup) hleads.cur_isNone hread
  | @replaced s s₁ s' cur slot seg next c rest fault lookup passage assign below ih =>
    have hleads := (replaced_leads hf lookup passage assign).1
    obtain ⟨r₀, -, -, rfl, -⟩ := assign_eq_ok assign
    obtain ⟨hassigned, hsize⟩ := replaced_assigned (hf.closed r₀ (Reaches.refl s _)) assign
    by_cases heq : r = r₀
    · subst heq
      exact Or.inr ⟨[], _, rfl, rfl⟩
    · rw [← hassigned.others r heq hr]
      refine (ih hleads.child_isFinite (by omega)).imp_right ?_
      rintro ⟨gone, left, hpath, hread⟩
      refine ⟨seg :: gone, left, congrArg _ hpath, ?_⟩
      exact read_cons ((hleads.lookup_edit below.edit seg).trans hleads.lookup) rfl hread

/-- A write of any value along any segments that fails below a finite root, in which containers may be
shared, leaves the store as it was where the path comes to no slot that a new container can be put
into, where a value has no slot of the kind that is asked for, and where a value stands in the way, or
a position has too many digits to be written, and no name on the path is the position of an item of a
list there.  A position may be at fault after containers were opened on the path: then all that the
tree held keeps its place in it, and objects off the path are as they were.  There are no other
faults. -/
theorem write_failed (hf : s.IsFinite root)
    (h : (s.write root path new).result = .error fault) :
    (fault.OfPosition ∨ fault.OfAssignment ∨ fault.OfRawValue ∨
      path.isWritable = false ∧ fault = .unwritable) ∧
    (¬ s.CanOpen root path → (s.write root path new).store = s) ∧
    (fault.OfAssignment → (s.write root path new).store = s) ∧
    (fault.OfRawValue ∨ fault = .unwritable → ¬ s.NamesItem root path →
      (s.write root path new).store = s) ∧
    (fault.OfPosition ∨ fault = .unwritable →
      (s.tree root).Opened ((s.write root path new).store.tree root) ∧
      ∀ r, r.index < s.size → (s.write root path new).store.get? r = s.get? r ∨
        ∃ gone left, path = gone ++ left ∧
          (s.write root path new).store.read root gone = .ok (.ref r)) := by
  cases path with
  | nil => cases h
  | cons seg rest =>
    have hstopped := stopped_of_writeFrom h
    refine ⟨?_, fun hno => hstopped.unchanged.resolve_right hno,
      hstopped.unchanged_of_assignment hf, fun hfault hno => ?_,
      fun _ => ⟨(hstopped.opens hf root hf).2, fun r hr => hstopped.changed hf hr⟩⟩
    · refine (hstopped.fault_cases hf).imp_right (Or.imp_right (Or.imp_right ?_))
      exact fun ⟨hfault, hw⟩ => ⟨hw.elim id id, hfault⟩
    · refine (hstopped.unchanged_of_not_ofPosition hf ?_).resolve_right hno
      rcases hfault with hraw | rfl
      · cases fault <;> simp_all [Fault.OfPosition, Fault.OfRawValue]
      · exact not_ofPosition_unwritable

/-- One list stands under two names.  A name and a position that no list can grow to are asked of it
under one of them: it has become a mapping there, and an empty list stands under the name. -/
theorem write_failed_in_shared_list :
    ∃ (s s' : Store) (root : Value),
      s.tree root = .mapping .plain [(.text "a", .list [.leaf (.int 7)]),
        (.text "b", .list [.leaf (.int 7)])] ∧
      s' = (s.write root [.key "a", .key "x", .index 9223372036854775807] root).store ∧
      (s.write root [.key "a", .key "x", .index 9223372036854775807] root).result =
        .error .lengthOverflow ∧
      s'.tree root = .mapping .plain [(.text "a", .mapping .plain [(.text "0", .leaf (.int 7)),
        (.text "x", .list [])]), (.text "b", .list [.leaf (.int 7)])] ∧
      (s.tree root).Opened (s'.tree root) ∧ s'.get? ⟨0⟩ = s.get? ⟨0⟩ := by
  obtain ⟨s, hs⟩ : ∃ s : Store, s = { Store.empty with cells := #[.list [.ofAtom (.int 7)],
      .mapping .plain [(.text "a", .ref ⟨0⟩), (.text "b", .ref ⟨0⟩)]] } := ⟨_, rfl⟩
  have hf : s.IsFinite (.ref ⟨1⟩) := by
    subst hs
    decide +kernel
  have hresult : (s.write (.ref ⟨1⟩) [.key "a", .key "x", .index 9223372036854775807]
      (.ref ⟨1⟩)).result = .error .lengthOverflow := by
    subst hs
    cbv
  obtain ⟨-, -, -, -, hopened⟩ := write_failed hf hresult
  refine ⟨s, _, .ref ⟨1⟩, ?_, rfl, hresult, ?_, (hopened (Or.inl trivial)).1, ?_⟩
  · subst hs
    cbv
  · subst hs
    cbv
  · subst hs
    cbv

/-- A write that fails can leave another tree: a list has been made for a position that it does not
have. -/
theorem write_failed_leaves_list :
    ∃ s : Store, s.IsFinite (.ref ⟨0⟩) ∧ s.isContainer (.ref ⟨0⟩) = true ∧
      (s.write (.ref ⟨0⟩) [.key "a", .index (-1)] .none).result = .error .assignmentOutOfRange ∧
      s.tree (.ref ⟨0⟩) = .mapping .plain [] ∧
      (s.write (.ref ⟨0⟩) [.key "a", .index (-1)] .none).store.tree (.ref ⟨0⟩) =
        .mapping .plain [(.text "a", .list [])] :=
  ⟨{ Store.empty with cells := #[.mapping .plain []] }, by decide +kernel, rfl, rfl, rfl, rfl⟩

end Store

end PathStore
