import PathStore.Proofs.Alike
import PathStore.Proofs.Runs

/-!
# What can come of an access

Where the key is a text that can be read, the outcomes of getting, setting and deleting are few.
Reading gives contents or does not find them (`Data.readFrom_outcome`).  Writing below a mapping
succeeds, is refused by a value that is no container, or asks for too long a list; when it is refused
the tree is as it was, since nothing that a write makes on its way can refuse it
(`Data.writeFrom_outcome`).  Removing never fails (`Data.remove_isOk`).
-/

namespace PathStore

/-! ## Keys -/

/-- A key whose runs of digits are short enough to be read. -/
def Text.Readable (t : Text) : Prop :=
  ∀ run ∈ (trim t).runs, run.all CodePoint.isDigit = true → run.length ≤ maxDigits

instance : DecidablePred Text.Readable := fun t =>
  inferInstanceAs (Decidable (∀ run ∈ (Text.trim t).runs,
    run.all CodePoint.isDigit = true → run.length ≤ Text.maxDigits))

/-- The class that a fault has as a storage error. -/
def Fault.kind? (fault : Fault) : Option ErrorClass :=
  fault.storageError?.map StorageError.kind

theorem isDelimiter_iff {c : CodePoint} :
    isDelimiter c = true ↔ c = .char '[' ∨ c = .char '.' ∨ c = .char ']' := by
  simp [isDelimiter, or_assoc]

/-- A readable key has a path, which has no segment exactly if there are only delimiters between the
blank ends of the key. -/
theorem Text.Readable.exists_path {t : Text} (h : t.Readable) :
    ∃ path, Path.read (trim t) = .ok path ∧
      (path = [] ↔ ∀ c ∈ trim t, c = .char '[' ∨ c = .char '.' ∨ c = .char ']') := by
  rcases Path.read_outcome (trim t) with ⟨-, hread⟩ | ⟨run, hmem, ⟨hd, hlt⟩, -⟩
  · refine ⟨_, hread, ?_⟩
    rw [List.map_eq_nil_iff, runs_eq_nil_iff]
    simp only [isDelimiter_iff]
  · exact absurd hlt (Nat.not_lt.2 (h run hmem hd))

theorem Text.Readable.read_isOk {t : Text} (h : t.Readable) :
    ∃ path, Path.read (trim t) = .ok path := by
  obtain ⟨path, hpath, -⟩ := h.exists_path
  exact ⟨path, hpath⟩

/-- A readable key has a path or is refused for its format. -/
theorem Text.Readable.path_outcome {t : Text} (h : t.Readable) :
    (∃ path, (Atom.text t).path = .ok path) ∨
      ∃ fault, (Atom.text t).path = .error fault ∧ fault.kind? = some .keyFormat := by
  obtain ⟨path, hpath⟩ := h.read_isOk
  simp only [Atom.path, hpath]
  split
  · exact Or.inr ⟨_, rfl, rfl⟩
  · split
    · exact Or.inr ⟨_, rfl, rfl⟩
    · exact Or.inl ⟨path, rfl⟩

namespace Data

variable {t new slot child : Data} {seg next : Segment} {path before here rest : Path} {keep : Bool}

/-! ## Reading -/

/-- Reading along a written path gives contents or finds none. -/
theorem readFrom_outcome (hw : ∀ seg ∈ rest, seg.IsWritten) :
    (∃ u, t.readFrom path before rest = .ok u) ∨
      ∃ gap, t.readFrom path before rest = .error (.showing path (.keyNotFound path gap)) := by
  induction rest generalizing t before with
  | nil => exact Or.inl ⟨t, rfl⟩
  | cons seg rest ih =>
    obtain ⟨hseg, hw⟩ := List.forall_mem_cons.1 hw
    rw [readFrom, lookup_written hseg]
    cases t.isNone with
    | true => exact Or.inr ⟨before, rfl⟩
    | false => exact ih hw

/-! ## Writing -/

/-- Assigning to a slot what is there changes nothing. -/
theorem assign_entry (hw : seg.IsWritten) (hn : (t.entry seg.spelling).isNone = false) :
    t.assign seg (t.entry seg.spelling) = .ok t := by
  have hl := lookup_written hw t
  cases t with
  | mapping kind es =>
    cases hf : Entries.find? (.text seg.spelling) es with
    | none => simp [entry, entries, hf, isNone] at hn
    | some x =>
      have hentry : (mapping kind es).entry seg.spelling = x := by simp [entry, entries, hf]
      obtain ⟨es₁, k, es₂, rfl, hk, hne⟩ := Entries.find?_eq_some hf
      rw [hentry, assign_mapping hw.isWritable, Entries.insert_append_cons hne hk]
  | list xs =>
    cases seg with
    | key k =>
      rw [← Except.ok.inj hl] at hn
      cases hn
    | index p =>
      obtain ⟨n, hlt, ho, hx⟩ | ⟨-, heq⟩ := itemAt_eq_ok hl
      · obtain ⟨hlt', hx⟩ := List.getElem?_eq_some_iff.1 hx
        rw [← hx]
        simp [assign, assignAt, hlt, ho, Except.map]
      · rw [heq] at hn
        cases hn
  | _ => cases hn

/-- Putting a subtree back ends as what was done below, unless a list would grow too far. -/
theorem update_outcome (h : t.canHold seg = true) (hw : seg.IsWritten)
    (below : Data × Except Fault Unit) :
    (t.update seg below).2 = below.2 ∨ Overflows (t.update seg below).2 := by
  unfold update
  rcases assign_of_canHold h hw below.1 with ⟨u, hu⟩ | ⟨fault, hf, ho⟩
  · rw [hu]
    exact Or.inl rfl
  · rw [hf]
    exact Or.inr ho

/-- A container that can hold what comes next is gone into as it is. -/
theorem enter_of_canHold (h : slot.canHold next = true) (path here : Path) :
    enter path here next slot = .ok slot := by
  unfold enter
  rw [isNone_of_isContainer (canHold_isContainer h)]
  cases slot with
  | mapping kind es => rfl
  | list xs =>
    cases next with
    | key k => cases h
    | index p => rfl
  | _ => cases h

/-- A write into an empty slot is not refused: what it makes on its way can hold what comes next. -/
theorem writeFrom_of_empty (h : t.canHold seg = true) (hempty : t.entry seg.spelling = nothing)
    (hw : ∀ x ∈ seg :: rest, x.IsWritten) :
    (t.writeFrom path before new (seg :: rest)).2 = .ok () ∨
      Overflows (t.writeFrom path before new (seg :: rest)).2 := by
  induction rest generalizing t seg before with
  | nil => exact update_outcome h (hw seg List.mem_cons_self) (new, .ok ())
  | cons next rest ih =>
    obtain ⟨hseg, hw⟩ := List.forall_mem_cons.1 hw
    have hfresh : (fresh next).entry next.spelling = nothing := by cases next <;> rfl
    rw [writeFrom, lookup_written hseg, hempty]
    simp only [@enter_of_isNone nothing rfl]
    rcases update_outcome h hseg
      ((fresh next).writeFrom path (before ++ [seg]) new (next :: rest)) with heq | ho
    · rw [heq]
      exact ih (canHold_fresh next) hfresh hw
    · exact Or.inr ho

/-- A write below a container succeeds, or is refused and leaves everything as it was, or asks for too
long a list. -/
theorem writeFrom_outcome (h : t.canHold seg = true) (hw : ∀ x ∈ seg :: rest, x.IsWritten) :
    (t.writeFrom path before new (seg :: rest)).2 = .ok () ∨
      (∃ gap next, t.writeFrom path before new (seg :: rest) =
        (t, .error (.showing path (.rawValue path gap next)))) ∨
      Overflows (t.writeFrom path before new (seg :: rest)).2 := by
  induction rest generalizing t seg before with
  | nil =>
    exact (update_outcome h (hw seg List.mem_cons_self) (new, .ok ())).imp_right Or.inr
  | cons next rest ih =>
    obtain ⟨hseg, hw⟩ := List.forall_mem_cons.1 hw
    -- going on from a container in which nothing is found cannot be refused
    have hempty : ∀ child : Data, child.canHold next = true → child.entry next.spelling = nothing →
        (t.update seg (child.writeFrom path (before ++ [seg]) new (next :: rest))).2 = .ok () ∨
          Overflows (t.update seg (child.writeFrom path (before ++ [seg]) new (next :: rest))).2 := by
      intro child hhold hnone
      rcases update_outcome h hseg (child.writeFrom path (before ++ [seg]) new (next :: rest))
        with heq | ho
      · rw [heq]
        exact writeFrom_of_empty hhold hnone hw
      · exact Or.inr ho
    rw [writeFrom, lookup_written hseg]
    simp only
    cases hn : (t.entry seg.spelling).isNone with
    | true =>
      rw [enter_of_isNone hn]
      exact (hempty _ (canHold_fresh next) (by cases next <;> rfl)).imp_right Or.inr
    | false =>
      cases hhold : (t.entry seg.spelling).canHold next with
      | true =>
        simp only [enter_of_canHold hhold]
        rcases update_outcome h hseg
          ((t.entry seg.spelling).writeFrom path (before ++ [seg]) new (next :: rest)) with heq | ho
        · rcases ih hhold hw with hok | ⟨gap, next', hraw⟩ | ho
          · exact Or.inl (heq.trans hok)
          · refine Or.inr (Or.inl ⟨gap, next', ?_⟩)
            rw [hraw, update, assign_entry hseg hn]
          · exact Or.inr (Or.inr (heq ▸ ho))
        · exact Or.inr (Or.inr ho)
      | false =>
        cases hslot : t.entry seg.spelling with
        | list xs =>
          -- only a list that a name is asked of is changed on the way, and it has no such entry
          cases next with
          | index p =>
            rw [hslot] at hhold
            cases hhold
          | key k =>
            have hk : (Segment.key k).IsWritten := hw _ List.mem_cons_self
            have hnone : (mapping .plain (Entries.numbered 0 xs)).entry k = nothing := by
              simp only [entry, entries, Entries.find?_numbered_of_ne hk.ne_decimal,
                Option.getD_none]
            exact (hempty _ rfl hnone).imp_right Or.inr
        | mapping kind es =>
          rw [hslot] at hhold
          cases hhold
        | _ =>
          rw [hslot] at hn
          simp only [enter_of_blocked hn rfl]
          exact Or.inr (Or.inl ⟨_, _, rfl⟩)

/-! ## Removing -/

/-- Taking out of the slot of a written segment does not fail. -/
theorem take_isOk (hw : seg.IsWritten) (keep : Bool) (t : Data) : ∃ r, t.take keep seg = .ok r := by
  cases t with
  | list xs =>
    cases seg with
    | key k => exact ⟨_, rfl⟩
    | index p =>
      simp only [take, takeAt]
      split
      · exact ⟨_, rfl⟩
      · rw [offset?_of_nonneg hw.1 (by omega)]
        exact ⟨_, rfl⟩
  | mapping kind es => exact ⟨_, take_mapping hw.isWritable kind es keep⟩
  | _ => exact ⟨_, rfl⟩

/-- Removing along a written path does not fail. -/
theorem remove_isOk (hw : ∀ seg ∈ path, seg.IsWritten) (keep : Bool) (t : Data) :
    ∃ r, t.remove keep path = .ok r := by
  induction path generalizing t with
  | nil => exact ⟨_, rfl⟩
  | cons seg rest ih =>
    obtain ⟨hseg, hrest⟩ := List.forall_mem_cons.1 hw
    cases rest with
    | nil => exact take_isOk hseg keep t
    | cons next rest =>
      rw [remove, lookup_written hseg]
      simp only
      split
      · next hk =>
        obtain ⟨⟨below, old⟩, hbelow⟩ := ih hrest (t.entry seg.spelling)
        obtain ⟨u, hu⟩ := assign_of_entry hseg hk below
        rw [hbelow]
        simp only [hu]
        exact ⟨_, rfl⟩
      · exact ⟨_, rfl⟩

/-! ## Accesses under readable keys -/

variable {key : Text}

/-- Getting under a readable key gives contents, or is refused for the format of the key or because
there is nothing to go on from. -/
theorem read_outcome (hk : key.Readable) (t : Data) :
    (∃ u, (Atom.text key).path.bind t.read = .ok u) ∨
      ∃ fault, (Atom.text key).path.bind t.read = .error fault ∧
        (fault.kind? = some .keyFormat ∨ fault.kind? = some .keyNotFound) := by
  rcases hk.path_outcome with ⟨path, hpath⟩ | ⟨fault, hpath, hkind⟩
  · rw [hpath]
    have hw := Atom.isWritten_of_path hpath
    rcases @readFrom_outcome t path [] path hw with ⟨u, hu⟩ | ⟨gap, hgap⟩
    · exact Or.inl ⟨u, hu⟩
    · rw [Fault.showing_of_isWritable (Segment.IsWritten.path_isWritable hw)] at hgap
      exact Or.inr ⟨_, hgap, Or.inr rfl⟩
  · rw [hpath]
    exact Or.inr ⟨fault, rfl, Or.inl hkind⟩

/-- Setting under a readable key below a mapping succeeds, or is refused for the format of the key or
for a value that is no container and leaves the tree as it was, or asks for too long a list. -/
theorem setAt_outcome (hk : key.Readable) (hm : t.isMapping = true) (new : Data) :
    (t.setAt (.text key) new).2 = .ok () ∨
      (∃ fault, t.setAt (.text key) new = (t, .error fault) ∧
        (fault.kind? = some .keyFormat ∨ fault.kind? = some .rawValue)) ∨
      Overflows (t.setAt (.text key) new).2 := by
  unfold setAt
  rcases hk.path_outcome with ⟨path, hpath⟩ | ⟨fault, hpath, hkind⟩
  · rw [hpath]
    obtain ⟨seg, rest, rfl⟩ := List.exists_cons_of_ne_nil (Atom.path_ne_nil hpath)
    have hw := Atom.isWritten_of_path hpath
    have houtcome := @writeFrom_outcome t new seg (seg :: rest) [] rest
      (canHold_of_isMapping hm seg) hw
    rcases houtcome with hok | ⟨gap, next, hraw⟩ | ho
    · exact Or.inl hok
    · rw [Fault.showing_of_isWritable (Segment.IsWritten.path_isWritable hw)] at hraw
      exact Or.inr (Or.inl ⟨_, hraw, Or.inr rfl⟩)
    · exact Or.inr (Or.inr ho)
  · rw [hpath]
    exact Or.inr (Or.inl ⟨fault, rfl, Or.inl hkind⟩)

/-- Deleting under a readable key does not fail. -/
theorem deleteAt_isOk (hk : key.Readable) (keep : Bool) (t : Data) :
    ∃ old, (t.deleteAt (.text key) keep).2 = .ok old := by
  unfold deleteAt
  cases hu : Storage.usableKey? (.ofAtom (.text key)) with
  | none => exact ⟨_, rfl⟩
  | some trimmed =>
    obtain rfl : Text.trim key = trimmed := by
      simp only [Storage.usableKey?] at hu
      split at hu
      · cases hu
      · exact Option.some.inj hu
    obtain ⟨path, hpath⟩ := hk.read_isOk
    obtain ⟨r, hr⟩ := remove_isOk (Path.isWritten_of_read hpath) keep t
    simp only [hpath, Except.bind, hr]
    exact ⟨_, rfl⟩

end Data

end PathStore
