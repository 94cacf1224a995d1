import PathStore.Proofs.Frame
import PathStore.Proofs.Outcomes
import PathStore.Proofs.Views

/-!
# Writes that are refused

A write is refused where a value that cannot hold anything, neither nothing nor a container, stands
on its path before the end: an obstacle (`Obstacle`).  A way leads to it through containers that are
gone into as they are, so the store is as it was when the write gets there
(`writeFrom_of_obstacle`).  Once a write has put a new container into a slot it finds empty slots
only, and nothing refuses it any more (`writeFrom_of_vacant`).  So a write is refused exactly where
there is an obstacle (`Storage.set_refused_iff`), whatever is shared in the tree.
-/

namespace PathStore

namespace Store

variable {s s' : Store} {cur new child slot v : Value} {seg next : Segment}
  {path before gap rest : Path} {c : Cell} {fault : Fault}

/-- A value that cannot hold anything stands on a path: `gap`, the way to it, is neither empty nor
the whole path, and the path goes on to `next`. -/
structure Obstacle (s : Store) (root : Value) (path gap : Path) (next : Segment) : Prop where
  on_path : ∃ below, path = gap ++ next :: below
  ne_nil : gap ≠ []
  blocks : ∃ v, s.read root gap = .ok v ∧ v.isNone = false ∧ s.isContainer v = false

/-! ## Reading one level -/

/-- What is read along a path does not depend on how its start was reached. -/
theorem readFrom_ok_congr (path' before' : Path) (h : s.readFrom path before cur rest = .ok v) :
    s.readFrom path' before' cur rest = .ok v := by
  induction rest generalizing cur before before' with
  | nil => exact h
  | cons seg rest ih =>
    rw [readFrom] at h ⊢
    split at h
    · cases h
    · next hn =>
      rw [if_neg hn]
      cases hl : s.lookup cur seg with
      | error fault => simp [hl] at h
      | ok next =>
        rw [hl] at h
        exact ih (before' ++ [seg]) h

/-- Reading goes through a slot of something. -/
theorem readFrom_cons_eq_ok (h : s.readFrom path before cur (seg :: rest) = .ok v) :
    cur.isNone = false ∧ ∃ slot, s.lookup cur seg = .ok slot ∧
      s.readFrom path (before ++ [seg]) slot rest = .ok v := by
  rw [readFrom] at h
  split at h
  · cases h
  · next hn =>
    cases hl : s.lookup cur seg with
    | error fault => simp [hl] at h
    | ok slot =>
      rw [hl] at h
      exact ⟨by simpa using hn, slot, rfl, h⟩

/-- Where something is read below a value, its first slot does not hold nothing. -/
theorem isNone_of_readFrom {slot : Value} (hv : v.isNone = false)
    (h : s.readFrom path before slot rest = .ok v) : slot.isNone = false := by
  cases rest with
  | nil =>
    cases h
    exact hv
  | cons seg rest => exact (readFrom_cons_eq_ok h).1

/-! ## How a write goes on -/

/-- A value in which a slot holds something is gone into as it is. -/
theorem passage_of_lookup {slot : Value} (hl : s.lookup cur seg = .ok slot)
    (hn : slot.isNone = false) : s.passage cur seg = .fits := by
  obtain ⟨r, c, rfl, hc, hk, hl⟩ := isContainer_of_lookup hl hn
  have hcell : s.cell? (.ref r) = some c := hc
  unfold passage
  rw [if_neg (by simp [Value.isNone]), hcell]
  cases c with
  | mapping kind es => rfl
  | list xs =>
    cases seg with
    | index p => rfl
    | key k =>
      -- a list has no slots for names
      cases hl
      cases hn
  | _ => cases hk

/-- Where a container is gone into as it is, a write goes on from it with nothing changed. -/
theorem writeFrom_of_fits (hl : s.lookup cur seg = .ok child) (hp : s.passage child next = .fits)
    (new : Value) (rest : Path) :
    s.writeFrom path before cur new (seg :: next :: rest) =
      s.writeFrom path (before ++ [seg]) child new (next :: rest) := by
  have hd : s.descend path (before ++ [seg]) cur seg next = .done s child := by
    rw [descend, hl]
    simp only [hp]
  rw [writeFrom, hd, Effect.andThen_done]

/-- A value that is neither nothing nor a container stops a write. -/
theorem passage_of_not_isContainer (hn : slot.isNone = false) (hk : s.isContainer slot = false)
    (next : Segment) : s.passage slot next = .blocked := by
  unfold passage
  rw [if_neg (by simp [hn])]
  unfold Store.isContainer at hk
  cases hc : s.cell? slot with
  | none => cases next <;> rfl
  | some c =>
    rw [hc] at hk
    cases c with
    | mapping kind es => cases hk
    | list xs => cases hk
    | _ => cases next <;> rfl

theorem passage_eq_blocked (h : s.passage slot next = .blocked) :
    slot.isNone = false ∧ s.isContainer slot = false := by
  unfold passage at h
  split at h
  · cases h
  · next hn =>
    refine ⟨by simpa using hn, ?_⟩
    unfold Store.isContainer
    cases hc : s.cell? slot with
    | none => rfl
    | some c =>
      rw [hc] at h
      cases c with
      | mapping kind es => cases h
      | list xs => cases next <;> cases h
      | _ => rfl

theorem lt_size_of_isContainer {r : Ref} (h : s.isContainer (.ref r) = true) :
    r.index < s.size := by
  cases hc : s.get? r with
  | some c => exact get?_lt hc
  | none => simp [Store.isContainer, cell?, hc] at h

/-- Where a slot cannot be assigned to, its position cannot in a list, or there is no such slot; or
the segment would have to be written, and cannot be. -/
theorem assign_eq_error (h : s.assign cur seg new = .error fault) :
    (∃ xs p, seg = .index p ∧ assignAt .none xs p new = .error fault) ∨
      (∃ kind, fault = .notAssignable seg kind) ∨
        seg.isWritable = false ∧ fault = .unwritable := by
  have hshown : ∀ kind, Fault.showing [seg] (.notAssignable seg kind) = fault →
      (∃ kind, fault = .notAssignable seg kind) ∨
        seg.isWritable = false ∧ fault = .unwritable := by
    rintro kind rfl
    rcases Fault.showing_eq_or [seg] (.notAssignable seg kind) with heq | ⟨hw, heq⟩
    · exact Or.inl ⟨kind, heq⟩
    · exact Or.inr ⟨by simpa using hw, heq⟩
  cases cur with
  | atom a copy => exact Or.inr (hshown _ (Except.error.inj h))
  | ref r =>
    simp only [assign] at h
    cases hc : s.get? r with
    | none =>
      rw [hc] at h
      exact Or.inr (hshown _ (Except.error.inj h))
    | some c =>
      simp only [hc] at h
      cases ha : c.assign new seg with
      | ok c' => simp [ha, Except.map] at h
      | error fault' =>
        obtain rfl : fault' = fault := by simpa [ha, Except.map] using h
        cases c with
        | mapping kind es =>
          cases hw : seg.isWritable with
          | true => simp [Cell.assign_mapping hw] at ha
          | false =>
            rw [Cell.assign, Segment.name_of_not_isWritable hw] at ha
            exact Or.inr (Or.inr ⟨rfl, (Except.error.inj ha).symm⟩)
        | list xs =>
          cases seg with
          | key k => exact Or.inr (hshown _ (Except.error.inj ha))
          | index p =>
            refine Or.inl ⟨xs, p, rfl, ?_⟩
            cases hx : assignAt .none xs p new with
            | ok ys => simp [Cell.assign, hx, Except.map] at ha
            | error fault'' => simpa [Cell.assign, hx, Except.map] using ha
        | _ => exact Or.inr (hshown _ (Except.error.inj ha))

/-- That a slot cannot be assigned to is no storage error. -/
theorem kind?_of_assign (h : s.assign cur seg new = .error fault) : fault.kind? = none := by
  rcases assign_eq_error h with ⟨xs, p, -, hx⟩ | ⟨kind, rfl⟩ | ⟨-, rfl⟩
  · have hmem := fault_of_assignAt hx
    simp only [List.mem_cons, List.not_mem_nil, or_false] at hmem
    rcases hmem with rfl | rfl | rfl | rfl <;> rfl
  · rfl
  · rfl

/-- A write of one segment gives no storage error. -/
theorem kind?_of_writeFrom_singleton
    (h : (s.writeFrom path before cur new [seg]).result = .error fault) : fault.kind? = none := by
  rw [writeFrom] at h
  cases ha : s.assign cur seg new with
  | ok s' =>
    rw [ha] at h
    cases h
  | error fault' =>
    rw [ha] at h
    cases h
    exact kind?_of_assign ha

/-! ## Writes into empty slots -/

/-- A new container has nothing in the slot that comes next: it is empty, or a mapping that holds
the items of a list under their positions and is asked for a name. -/
theorem lookup_of_replace (hp : s.passage slot next = .replace c) (hw : next.IsWritten) :
    c.lookup next = .ok .none := by
  obtain ⟨-, rfl⟩ | ⟨r, xs, -, -, hkey, rfl⟩ := passage_eq_replace hp
  · cases next with
    | key k => exact Cell.lookup_mapping hw.isWritable .plain []
    | index p => exact itemAt_of_nonneg hw.1
  · rw [Cell.lookup_numbered hw]
    cases next with
    | key k => rfl
    | index p => cases hkey

/-- A new container that takes a slot is there, and nothing is in its slot that comes next. -/
theorem replaced_vacant (hcur : ∀ r, cur = .ref r → r.index < s.size)
    (hp : s.passage slot next = .replace c) (hw : next.IsWritten)
    (ha : (s.alloc c).1.assign cur seg (s.alloc c).2 = .ok s') :
    (∀ r, (s.alloc c).2 = .ref r → r.index < s'.size) ∧
      s'.lookup (s.alloc c).2 next = .ok .none := by
  have hget := replaced_get? hcur ha
  constructor
  · intro r hr
    cases hr
    exact get?_lt hget
  · have hcell : s'.cell? (s.alloc c).2 = some c := hget
    rw [Store.lookup, hcell]
    exact lookup_of_replace hp hw

/-- Where the slot is empty the rest of the way is made new, and no storage error comes of it. -/
theorem writeFrom_of_vacant (hcur : ∀ r, cur = .ref r → r.index < s.size)
    (hl : s.lookup cur seg = .ok slot) (hn : slot.isNone = true)
    (hw : ∀ x ∈ seg :: rest, x.IsWritten)
    (h : (s.writeFrom path before cur new (seg :: rest)).result = .error fault) :
    fault.kind? = none := by
  induction rest generalizing s before cur seg slot with
  | nil => exact kind?_of_writeFrom_singleton h
  | cons next rest ih =>
    have hw' := (List.forall_mem_cons.1 hw).2
    have hp : s.passage slot next = .replace (fresh next) := by
      unfold passage
      rw [if_pos hn]
    rcases writeFrom_descent s path before cur new seg next rest with
      ⟨fault', hdesc, -, hres⟩ | ⟨s', child, hdesc, -, hres⟩
    · rw [hres] at h
      cases h
      cases hdesc with
      | astray lookup =>
        rw [lookup] at hl
        cases hl
      | blocked lookup passage =>
        rw [lookup] at hl
        cases hl
        rw [passage] at hp
        cases hp
      | refused lookup passage assign => exact kind?_of_assign assign
    · rw [hres] at h
      cases hdesc with
      | fits lookup passage =>
        rw [lookup] at hl
        cases hl
        rw [passage] at hp
        cases hp
      | replaced lookup passage assign =>
        obtain ⟨hlt, hnone⟩ := replaced_vacant hcur passage (hw' _ List.mem_cons_self) assign
        exact ih hlt hnone rfl hw' h

/-! ## Writes that meet an obstacle -/

/-- A write that comes to an obstacle is refused there, with nothing changed. -/
theorem writeFrom_of_obstacle (new : Value) (next : Segment) (below : Path) (hne : gap ≠ [])
    (hread : s.readFrom path before cur gap = .ok v) (hv : v.isNone = false)
    (hk : s.isContainer v = false) :
    (s.writeFrom path before cur new (gap ++ next :: below)).store = s ∧
      (s.writeFrom path before cur new (gap ++ next :: below)).result =
        .error (.showing path (.rawValue path (before ++ gap) next)) := by
  induction gap generalizing before cur with
  | nil => exact absurd rfl hne
  | cons seg gap ih =>
    obtain ⟨-, slot, hl, hread⟩ := readFrom_cons_eq_ok hread
    have hn := isNone_of_readFrom hv hread
    cases gap with
    | nil =>
      cases hread
      have hd : s.descend path (before ++ [seg]) cur seg next =
          (Effect.fail s (.showing path (.rawValue path (before ++ [seg]) next))).after
            ⟨.warning, "Refusing to overwrite raw value at " ++ (before ++ [seg]).spelling⟩ := by
        rw [descend, hl]
        simp only [passage_of_not_isContainer hv hk]
      rw [List.singleton_append, writeFrom, hd]
      exact Effect.andThen_of_error rfl
    | cons seg' gap =>
      obtain ⟨-, slot', hl', hread'⟩ := readFrom_cons_eq_ok hread
      have hfits : s.passage slot seg' = .fits :=
        passage_of_lookup hl' (isNone_of_readFrom hv hread')
      have hon := ih (List.cons_ne_nil _ _) hread
      rw [List.append_assoc, List.singleton_append] at hon
      rw [List.cons_append, List.cons_append, writeFrom_of_fits hl hfits]
      exact hon

/-- A write that is refused has come to an obstacle. -/
theorem exists_obstacle (hcur : s.isContainer cur = true) (hw : ∀ x ∈ rest, x.IsWritten)
    (h : (s.writeFrom path before cur new rest).result = .error fault)
    (hkind : fault.kind? = some .rawValue) :
    ∃ gap next below v, rest = gap ++ next :: below ∧ gap ≠ [] ∧
      s.readFrom path before cur gap = .ok v ∧ v.isNone = false ∧ s.isContainer v = false := by
  induction rest generalizing before cur with
  | nil => cases h
  | cons seg rest ih =>
    cases rest with
    | nil =>
      rw [kind?_of_writeFrom_singleton h] at hkind
      cases hkind
    | cons next rest =>
      obtain ⟨hseg, hw⟩ := List.forall_mem_cons.1 hw
      -- what is found in the slot is read by the first segment
      have hread : ∀ {slot : Value} {gap : Path}, s.lookup cur seg = .ok slot →
          s.readFrom path before cur (seg :: gap) = s.readFrom path (before ++ [seg]) slot gap := by
        intro slot gap hl
        rw [readFrom, isNone_of_isContainer hcur, hl]
        rfl
      rcases writeFrom_descent s path before cur new seg next rest with
        ⟨fault', hdesc, -, hres⟩ | ⟨s', child, hdesc, -, hres⟩
      · rw [hres] at h
        cases h
        cases hdesc with
        | astray lookup =>
          obtain ⟨w, hl⟩ := lookup_isOk hseg s cur
          rw [lookup] at hl
          cases hl
        | @blocked slot lookup passage =>
          obtain ⟨hn, hk⟩ := passage_eq_blocked passage
          refine ⟨[seg], next, rest, slot, rfl, List.cons_ne_nil _ _, ?_, hn, hk⟩
          rw [hread lookup]
          rfl
        | refused lookup passage assign =>
          rw [kind?_of_assign assign] at hkind
          cases hkind
      · rw [hres] at h
        cases hdesc with
        | fits lookup passage =>
          obtain ⟨gap, next', below, v, hsplit, hne, hgap, hv⟩ := ih (passage_fits passage).2 hw h
          refine ⟨seg :: gap, next', below, v, ?_, List.cons_ne_nil _ _, ?_, hv⟩
          · rw [hsplit, List.cons_append]
          · rw [hread lookup, hgap]
        | replaced lookup passage assign =>
          have hlt : ∀ r, cur = .ref r → r.index < s.size := by
            rintro r rfl
            exact lt_size_of_isContainer hcur
          obtain ⟨hlt, hnone⟩ := replaced_vacant hlt passage (hw _ List.mem_cons_self) assign
          rw [writeFrom_of_vacant hlt hnone rfl hw h] at hkind
          cases hkind

end Store

/-! ## Storages -/

namespace Storage

open Store

variable {s : Store} {st : Storage} {key : Text} {copy : Nat} {path : Path} {new : Value}

/-- A text whose trimmed form has segments is a key for them. -/
theorem keyPath_of_read (s : Store) (copy : Nat) (hp : Path.read (Text.trim key) = .ok path)
    (hne : path ≠ []) :
    keyPath s (.atom (.text key) copy) = .ok path := by
  have hfull : Text.trim key ≠ [] := by
    intro hblank
    rw [hblank, Path.read, Path.parse_eq_mapM_runs, Text.runs_nil] at hp
    cases hp
    exact hne rfl
  simp only [keyPath, if_neg hfull, hp, if_neg hne]

/-- A text whose trimmed form has no segment is refused for its format. -/
theorem set_of_no_segments (st : Storage) (s : Store) (copy : Nat) (new : Value)
    (hp : Path.read (Text.trim key) = .ok []) :
    ∃ fault, (st.set s (.atom (.text key) copy) new).result = .error fault ∧
      fault.kind? = some .keyFormat := by
  simp only [set, keyPath, hp]
  by_cases hblank : Text.trim key = []
  · rw [if_pos hblank]
    exact ⟨_, rfl, rfl⟩
  · rw [if_neg hblank]
    exact ⟨_, rfl, rfl⟩

/-- Setting is refused at an obstacle on the path of the key, with nothing changed. -/
theorem set_of_obstacle (copy : Nat) (new : Value) (hp : Path.read (Text.trim key) = .ok path)
    {gap : Path} {next : Segment} (ho : s.Obstacle st.root path gap next) :
    (st.set s (.atom (.text key) copy) new).store = s ∧
      (st.set s (.atom (.text key) copy) new).result = .error (.rawValue path gap next) := by
  obtain ⟨⟨below, hpath⟩, hne, v, hread, hv, hk⟩ := ho
  have hpne : path ≠ [] := by
    rw [hpath]
    exact List.append_ne_nil_of_right_ne_nil _ (List.cons_ne_nil _ _)
  have hend := set_sameEnd st (keyPath_of_read s copy hp hpne) new
  have hwrite := writeFrom_of_obstacle new next below hne
    (readFrom_ok_congr path [] hread) hv hk
  rw [← hpath, List.nil_append,
    Fault.showing_of_isWritable (Path.isWritable_of_read hp)] at hwrite
  exact ⟨hend.store.trans hwrite.1, hend.result.trans hwrite.2⟩

/-- Where setting is refused there is an obstacle on the path of the key. -/
theorem exists_obstacle_of_set {kind : MappingKind} {es : Entries Value} {fault : Fault}
    (hm : s.cell? st.root = some (.mapping kind es)) (hp : Path.read (Text.trim key) = .ok path)
    (h : (st.set s (.atom (.text key) copy) new).result = .error fault)
    (hkind : fault.kind? = some .rawValue) : ∃ gap next, s.Obstacle st.root path gap next := by
  by_cases hne : path = []
  · subst hne
    obtain ⟨fault', hfault, hformat⟩ := set_of_no_segments st s copy new hp
    rw [hfault] at h
    cases h
    rw [hformat] at hkind
    cases hkind
  · have hend := set_sameEnd st (keyPath_of_read s copy hp hne) new
    have hroot : s.isContainer st.root = true := by
      rw [Store.isContainer, hm]
      rfl
    obtain ⟨gap, next, below, v, hsplit, hgap, hread, hv, hk⟩ :=
      exists_obstacle hroot (Path.isWritten_of_read hp) (hend.result.symm.trans h) hkind
    exact ⟨gap, next, ⟨below, hsplit⟩, hgap, v, readFrom_ok_congr gap [] hread, hv, hk⟩

/-- Setting is refused exactly when an obstacle stands on the path of the key, in the tree as it was
before.  There is only one way to an obstacle then, the error reports it, and the store is left
exactly as it was. -/
theorem set_refused_iff {kind : MappingKind} {es : Entries Value}
    (hm : s.cell? st.root = some (.mapping kind es)) (hp : Path.read (Text.trim key) = .ok path) :
    ((∃ fault, (st.set s (.atom (.text key) copy) new).result = .error fault ∧
        fault.kind? = some .rawValue) ↔ ∃ gap next, s.Obstacle st.root path gap next) ∧
      ∀ gap next, s.Obstacle st.root path gap next →
        (∀ gap' next', s.Obstacle st.root path gap' next' → gap' = gap) ∧
        (st.set s (.atom (.text key) copy) new).store = s ∧
        ∃ fault report reached, (st.set s (.atom (.text key) copy) new).result = .error fault ∧
          fault.storageError? = some report ∧ report.kind = .rawValue ∧
          path.format = .ok report.path ∧ report.reached = some reached ∧
          gap.format = .ok reached := by
  constructor
  · constructor
    · rintro ⟨fault, h, hkind⟩
      exact exists_obstacle_of_set hm hp h hkind
    · rintro ⟨gap, next, ho⟩
      exact ⟨_, (set_of_obstacle copy new hp ho).2, rfl⟩
  · intro gap next ho
    obtain ⟨hstore, hresult⟩ := set_of_obstacle copy new hp ho
    have hw := Path.isWritten_of_read hp
    obtain ⟨below, hpath⟩ := ho.on_path
    have hgap : ∀ seg ∈ gap, seg.IsWritten := fun seg hseg =>
      hw seg (hpath ▸ List.mem_append_left _ hseg)
    refine ⟨fun gap' next' ho' => ?_, hstore, _, _, _, hresult, rfl, rfl,
      Path.format_of_isWritable (Segment.IsWritten.path_isWritable hw), rfl,
      Path.format_of_isWritable (Segment.IsWritten.path_isWritable hgap)⟩
    -- the error tells the way to the obstacle, and there is only one error
    obtain ⟨-, hresult'⟩ := set_of_obstacle copy new hp ho'
    rw [hresult] at hresult'
    cases hresult'
    rfl

/-- A number stands in the second item of a list, and a name is set below it. -/
theorem set_refused_at_item :
    ∃ (s : Store) (st : Storage),
      s.tree st.root = .mapping .plain [(.text "a", .list [.leaf .none, .leaf (.int 0)])] ∧
      s.Obstacle st.root [.key "a", .index 1, .key "b", .index 3] [.key "a", .index 1] (.key "b") ∧
      (st.set s (.atom (.text " a[1].b[3]") 0) (.ofAtom (.int 5))).store = s ∧
      ∃ fault report, (st.set s (.atom (.text " a[1].b[3]") 0) (.ofAtom (.int 5))).result =
          .error fault ∧
        fault.storageError? = some report ∧ report.kind = .rawValue ∧
        report.reached = some ("a[1]" : Text) := by
  have hm : (Store.empty.load (.mapping .plain
      [(.text "a", .list [.leaf .none, .leaf (.int 0)])])).1.cell? (.ref ⟨1⟩) =
      some (.mapping .plain [(.text "a", .ref ⟨0⟩)]) := by cbv
  have ho : (Store.empty.load (.mapping .plain
      [(.text "a", .list [.leaf .none, .leaf (.int 0)])])).1.Obstacle (.ref ⟨1⟩)
      [.key "a", .index 1, .key "b", .index 3] [.key "a", .index 1] (.key "b") :=
    ⟨⟨[.index 3], rfl⟩, List.cons_ne_nil _ _, .ofAtom (.int 0), by cbv, rfl, rfl⟩
  obtain ⟨-, hstore, fault, report, reached, hresult, hreport, hkind, -, hreached, hgap⟩ :=
    (@set_refused_iff _ ⟨.ref ⟨1⟩, 0⟩ " a[1].b[3]" 0 _ (.ofAtom (.int 5)) _ _ hm (by cbv)).2 _ _ ho
  have hwritten : Path.format [.key "a", .index 1] = .ok "a[1]" := by cbv
  obtain rfl : reached = "a[1]" := Except.ok.inj (hgap.symm.trans hwritten)
  exact ⟨_, ⟨.ref ⟨1⟩, 0⟩, by cbv, ho, hstore, fault, report, hresult, hreport, hkind, hreached⟩

end Storage

end PathStore
