import Mathlib
import PathStore.Proofs.Canonical
import PathStore.Proofs.Positions

/-!
# What storage errors point at

A storage error about an access along a path carries two texts: the whole path, and the part of it up
to the value that the access could not go on from.  Both are written forms of canonical paths, so they
stand for what they were written from (`Points`).  What stands there is what is in the way: nothing
where reading fails, and a value that is neither nothing nor a container where a write is refused,
which is still there afterwards.  It is the first such value on the path, since something is read on
below every value before it (`read_front`).  Conversely reading fails wherever nothing stands before
the end of a path (`errors_point_at_obstruction`).
-/

namespace PathStore

/-! ## Definitions -/

/-- The report of an access along a path: its texts stand for the path and for `gap`, which is neither
empty nor the whole path. -/
structure StorageError.Points (report : StorageError) (path gap : Path) (reached : Text) : Prop where
  path_read : Path.read report.path = .ok path
  reached_eq : report.reached = some reached
  gap_read : Path.read reached = .ok gap
  ne_nil : gap ≠ []
  proper : gap <+: path ∧ gap ≠ path

/-! ## Written forms -/

/-- The spelling of a part of a written path stands for this part. -/
theorem Path.read_spelling_of_prefix {t : Text} {path front : Path} (h : read t = .ok path)
    (hfront : front <+: path) : read front.spelling = .ok front := by
  have hparse : parse t = .ok path := by
    unfold read at h
    cases hp : parse t with
    | error e => simp [hp, Except.mapError] at h
    | ok path' => simpa [hp, Except.mapError] using h
  have hcanonical : front.IsCanonical := fun seg hseg =>
    isCanonical_of_parse hparse seg (hfront.subset hseg)
  rw [read, parse_spelling hcanonical]
  rfl

theorem StorageError.Points.of_split {t : Text} {path gap below : Path} {next : Segment}
    (hp : Path.read t = .ok path) (hsplit : path = gap ++ next :: below) (hne : gap ≠ [])
    (kind : ErrorClass) (message : Text) :
    StorageError.Points ⟨kind, message, path.spelling, some gap.spelling⟩ path gap
      gap.spelling := by
  have hgap : gap <+: path := ⟨next :: below, hsplit.symm⟩
  refine ⟨Path.read_spelling_of_prefix hp (List.prefix_refl path), rfl,
    Path.read_spelling_of_prefix hp hgap, hne, hgap, ?_⟩
  rintro rfl
  simp at hsplit

/-- The texts of a report tell what it points at. -/
theorem StorageError.Points.eq {report : StorageError} {path path' gap gap' : Path}
    {reached text : Text} (h : report.Points path gap reached)
    (hpath : Path.read report.path = .ok path') (htext : report.reached = some text)
    (hgap : Path.read text = .ok gap') : path = path' ∧ gap = gap' ∧ reached = text := by
  cases h.reached_eq.symm.trans htext
  cases h.path_read.symm.trans hpath
  cases h.gap_read.symm.trans hgap
  exact ⟨rfl, rfl, rfl⟩

/-- That a text cannot be read is no storage error. -/
theorem Path.storageError?_of_read {t : Text} {fault : Fault} (h : read t = .error fault) :
    fault.storageError? = none := by
  unfold read at h
  cases hp : parse t with
  | ok path => simp [hp, Except.mapError] at h
  | error e =>
    rw [hp] at h
    cases h
    rfl

/-- A part of a path that is not all of it goes on to a next segment. -/
theorem exists_next {α : Type} {front path : List α} (h : front <+: path) (hne : front ≠ path) :
    ∃ next below, path = front ++ next :: below := by
  obtain ⟨left, rfl⟩ := h
  cases left with
  | nil => exact absurd (List.append_nil front).symm hne
  | cons next below => exact ⟨next, below, rfl⟩

namespace Store

variable {s : Store} {root v : Value} {path gap front : Path} {t : Text} {new : Value}
  {kind : MappingKind} {es : Entries Value}

/-! ## What is read before the obstruction -/

/-- Reading comes through something on the way, and on from there to what it gives in the end. -/
theorem readFrom_front (path' before : Path) {cur : Value} {next : Segment} {below : Path}
    (h : s.readFrom path' before cur (front ++ next :: below) = .ok v) :
    ∃ w slot, s.readFrom path' before cur front = .ok w ∧ w.isNone = false ∧
      s.lookup w next = .ok slot ∧
      s.readFrom path' (before ++ front ++ [next]) slot below = .ok v := by
  induction front generalizing before cur with
  | nil =>
    obtain ⟨hn, slot, hl, hbelow⟩ := readFrom_cons_eq_ok h
    exact ⟨cur, slot, rfl, hn, hl, by rwa [List.append_nil]⟩
  | cons seg front ih =>
    obtain ⟨hn, slot, hl, h⟩ := readFrom_cons_eq_ok h
    obtain ⟨w, slot', hread, hrest⟩ := ih (before ++ [seg]) h
    refine ⟨w, slot', ?_, ?_⟩
    · rw [readFrom, hn, hl]
      exact hread
    · rwa [List.append_assoc before, List.singleton_append] at hrest

/-- Before a place that is read there is something everywhere on the way, and a container if something
stands at the place. -/
theorem read_front (h : s.read root gap = .ok v) (hfront : front <+: gap) (hne : front ≠ gap) :
    ∃ w, s.read root front = .ok w ∧ w.isNone = false ∧
      (v.isNone = false → s.isContainer w = true) := by
  obtain ⟨next, below, rfl⟩ := exists_next hfront hne
  obtain ⟨w, slot, hread, hn, hl, hbelow⟩ := readFrom_front _ [] h
  refine ⟨w, readFrom_ok_congr front [] hread, hn, fun hv => ?_⟩
  obtain ⟨r, c, rfl, hc, hk, -⟩ := isContainer_of_lookup hl (isNone_of_readFrom hv hbelow)
  rwa [isContainer_ref hc]

theorem isNone_of_mapping (hm : s.cell? root = some (.mapping kind es)) : root.isNone = false :=
  isNone_of_isContainer (by rw [Store.isContainer, hm]; rfl)

/-! ## Reading -/

/-- The report of a fault of reading points at the place where nothing was. -/
theorem readText_points {fault : Fault} {report : StorageError}
    (hm : s.cell? root = some (.mapping kind es)) (h : s.readText root t = .error fault)
    (hreport : fault.storageError? = some report) :
    ∃ path gap reached v, Path.read t = .ok path ∧ report.Points path gap reached ∧
      s.read root gap = .ok v ∧ v.isNone = true := by
  unfold readText at h
  cases hp : Path.read t with
  | error fault' =>
    rw [hp] at h
    cases h
    cases (Path.storageError?_of_read hp).symm.trans hreport
  | ok path =>
    rw [hp] at h
    rcases s.readFrom_cases path [] root path with
      ⟨v, hok⟩ | ⟨gap, seg, left, v, fault', hsplit, hread, hfault, ⟨hn, rfl⟩ | hl⟩
    · cases h.symm.trans hok
    · cases h.symm.trans hfault
      rw [Fault.showing_of_isWritable (Path.isWritable_of_read hp)] at hreport
      cases hreport
      have hne : gap ≠ [] := by
        rintro rfl
        cases hread
        cases hn.symm.trans (isNone_of_mapping hm)
      exact ⟨path, gap, gap.spelling, v, rfl, .of_split hp hsplit hne _ _,
        readFrom_ok_congr gap [] hread, hn⟩
    · obtain ⟨w, hw⟩ := lookup_isOk (Path.isWritten_of_read hp seg (by simp [hsplit])) s v
      cases hl.symm.trans hw

/-- Reading fails where nothing stands before the end of the path. -/
theorem readText_of_gap (hp : Path.read t = .ok path) (hgap : gap <+: path) (hne : gap ≠ path)
    (hread : s.read root gap = .ok v) (hn : v.isNone = true) :
    s.readText root t = .error (.keyNotFound path gap) := by
  obtain ⟨next, below, rfl⟩ := exists_next hgap hne
  unfold readText
  rw [hp]
  refine (read_of_gap hread hn next below).trans ?_
  rw [Fault.showing_of_isWritable (Path.isWritable_of_read hp)]

/-! ## Writing -/

/-- The report of a write that is refused points at the value in the way, which is still there. -/
theorem writeText_points {fault : Fault} {report : StorageError}
    (hm : s.cell? root = some (.mapping kind es))
    (h : (s.writeText root t new).result = .error fault)
    (hreport : fault.storageError? = some report) (hkind : report.kind = .rawValue) :
    ∃ path gap reached v, Path.read t = .ok path ∧ report.Points path gap reached ∧
      (s.writeText root t new).store = s ∧ s.read root gap = .ok v ∧ v.isNone = false ∧
      s.isContainer v = false := by
  unfold writeText at h ⊢
  cases hp : Path.read t with
  | error fault' =>
    rw [hp] at h
    cases h
    cases (Path.storageError?_of_read hp).symm.trans hreport
  | ok path =>
    rw [hp] at h
    have hroot : s.isContainer root = true := by
      rw [Store.isContainer, hm]
      rfl
    have hkind' : fault.kind? = some .rawValue := by rw [Fault.kind?, hreport, ← hkind]; rfl
    obtain ⟨gap, next, below, v, hsplit, hne, hread, hv, hk⟩ :=
      exists_obstacle hroot (Path.isWritten_of_read hp) h hkind'
    obtain ⟨hstore, hresult⟩ := writeFrom_of_obstacle new next below hne hread hv hk
    rw [← hsplit] at hstore hresult
    cases h.symm.trans hresult
    rw [Fault.showing_of_isWritable (Path.isWritable_of_read hp)] at hreport
    cases hreport
    exact ⟨path, gap, Path.spelling gap, v, rfl, .of_split hp hsplit hne _ _, hstore,
      readFrom_ok_congr gap [] hread, hv, hk⟩

/-! ## Reports -/

/-- Storage errors point at what is really in the way, below every mapping and along the path of every
text.  Where reading reports a gap, there is nothing at the place that the report tells, and something
everywhere before it; where a write is refused, a value that is neither nothing nor a container is at
that place afterwards, and there are containers everywhere before it.  Conversely reading reports a
gap wherever nothing is at a place before the end of the path. -/
theorem errors_point_at_obstruction (hm : s.cell? root = some (.mapping kind es)) (t : Text)
    (new : Value) :
    (∀ fault report, s.readText root t = .error fault → fault.storageError? = some report →
      report.kind = .keyNotFound →
        ∃ path gap reached, Path.read t = .ok path ∧ report.Points path gap reached ∧
          (∃ v, s.readText root reached = .ok v ∧ v.isNone = true) ∧
          ∀ front, front <+: gap → front ≠ gap →
            ∃ v, s.read root front = .ok v ∧ v.isNone = false) ∧
    (∀ fault report, (s.writeText root t new).result = .error fault →
      fault.storageError? = some report → report.kind = .rawValue →
        ∃ path gap reached, Path.read t = .ok path ∧ report.Points path gap reached ∧
          (∃ v, (s.writeText root t new).store.readText root reached = .ok v ∧
            v.isNone = false ∧ (s.writeText root t new).store.isContainer v = false) ∧
          ∀ front, front <+: gap → front ≠ gap →
            ∃ v, (s.writeText root t new).store.read root front = .ok v ∧
              (s.writeText root t new).store.isContainer v = true) ∧
    ∀ path front v, Path.read t = .ok path → front <+: path → front ≠ path →
      s.read root front = .ok v → v.isNone = true →
        ∃ fault, s.readText root t = .error fault ∧ fault.kind? = some .keyNotFound := by
  refine ⟨?_, ?_, ?_⟩
  · intro fault report h hreport _
    obtain ⟨path, gap, reached, v, hp, hpoints, hread, hn⟩ := readText_points hm h hreport
    refine ⟨path, gap, reached, hp, hpoints, ⟨v, ?_, hn⟩, fun front hfront hne => ?_⟩
    · rw [readText, hpoints.gap_read]
      exact hread
    · obtain ⟨w, hw, hwn, -⟩ := read_front hread hfront hne
      exact ⟨w, hw, hwn⟩
  · intro fault report h hreport hkind
    obtain ⟨path, gap, reached, v, hp, hpoints, hstore, hread, hv, hk⟩ :=
      writeText_points hm h hreport hkind
    rw [hstore]
    refine ⟨path, gap, reached, hp, hpoints, ⟨v, ?_, hv, hk⟩, fun front hfront hne => ?_⟩
    · rw [readText, hpoints.gap_read]
      exact hread
    · obtain ⟨w, hw, -, hwk⟩ := read_front hread hfront hne
      exact ⟨w, hw, hwk hv⟩
  · intro path front v hp hfront hne hread hn
    exact ⟨_, readText_of_gap hp hfront hne hread hn, rfl⟩

/-- A list holds nothing and a number.  What is asked for below the first item is missing there, and
what is written below the second one is refused there; the zeros and stray brackets of the texts are
gone in the reports. -/
theorem errors_point_at_items :
    ∃ (s : Store) (root v w : Value) (missing refused : StorageError),
      s.tree root = .mapping .plain [(.text "a", .list [.leaf .none, .leaf (.int 5)])] ∧
      missing.Points [.key "a", .index 0, .key "b"] [.key "a", .index 0] "a[0]" ∧
      s.readText root "a]00.b" = .error (.keyNotFound [.key "a", .index 0, .key "b"]
        [.key "a", .index 0]) ∧
      s.readText root "a[0]" = .ok v ∧ v.isNone = true ∧
      refused.Points [.key "a", .index 1, .key "b"] [.key "a", .index 1] "a[1]" ∧
      (s.writeText root "a[01]b" .none).result = .error (.rawValue
        [.key "a", .index 1, .key "b"] [.key "a", .index 1] (.key "b")) ∧
      (s.writeText root "a[01]b" .none).store.readText root "a[1]" = .ok w ∧ w.isNone = false := by
  obtain ⟨s, hs⟩ : ∃ s : Store, s = { Store.empty with cells := #[
      .list [.none, .ofAtom (.int 5)], .mapping .plain [(.text "a", .ref ⟨0⟩)]] } := ⟨_, rfl⟩
  have hm : s.cell? (.ref ⟨1⟩) = some (.mapping .plain [(.text "a", .ref ⟨0⟩)]) := by
    subst hs
    rfl
  have hread : s.readText (.ref ⟨1⟩) "a]00.b" =
      .error (.keyNotFound [.key "a", .index 0, .key "b"] [.key "a", .index 0]) := by
    subst hs
    cbv
  have hwrite : (s.writeText (.ref ⟨1⟩) "a[01]b" .none).result =
      .error (.rawValue [.key "a", .index 1, .key "b"] [.key "a", .index 1] (.key "b")) := by
    subst hs
    cbv
  obtain ⟨path, gap, reached, -, hmissing, ⟨v, hv, hn⟩, -⟩ :=
    (errors_point_at_obstruction hm "a]00.b" .none).1 _ _ hread rfl rfl
  obtain ⟨rfl, rfl, rfl⟩ : path = [.key "a", .index 0, .key "b"] ∧ gap = [.key "a", .index 0] ∧
      reached = "a[0]" := hmissing.eq (by cbv) (by cbv) (by cbv)
  obtain ⟨path', gap', reached', -, hrefused, ⟨w, hw, hwn, -⟩, -⟩ :=
    (errors_point_at_obstruction hm "a[01]b" .none).2.1 _ _ hwrite rfl rfl
  obtain ⟨rfl, rfl, rfl⟩ : path' = [.key "a", .index 1, .key "b"] ∧
      gap' = [.key "a", .index 1] ∧ reached' = "a[1]" := hrefused.eq (by cbv) (by cbv) (by cbv)
  refine ⟨s, .ref ⟨1⟩, v, w, _, _, ?_, hmissing, hread, hv, hn, hrefused, hwrite, hw, hwn⟩
  subst hs
  cbv

end Store

end PathStore
