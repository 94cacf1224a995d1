import PathStore.Proofs.Slots

/-!
# Segments of written paths

A written path has positions counted from the start only, and its names are no runs of digits
(`Path.isWritten_of_parse`).  So different segments have different names (`Segment.IsWritten.spelling_inj`)
and address different slots of every container (`Cell.lookup_assign_of_ne`), and the items of a list
are found under the same segments once they stand in a mapping under `0`, `1`, …
(`Cell.lookup_numbered`).
-/

namespace PathStore

/-! ## Decimal texts -/

namespace Text

theorem decimal_natCast (n : Nat) : decimal n = ofChars (digits n) := by
  rw [decimal, signed, if_neg (by omega), Int.natAbs_natCast]

theorem decimal_natCast_ne_nil (n : Nat) : decimal n ≠ [] := by
  rw [decimal_natCast, ofChars, ne_eq, List.map_eq_nil_iff]
  exact Nat.toDigits_ne_nil

theorem all_isDigit_decimal (n : Nat) : (decimal n).all CodePoint.isDigit = true := by
  rw [decimal_natCast, ofChars, List.all_map, List.all_eq_true]
  exact fun c hc => Nat.isDigit_of_mem_toDigits (by decide) (by decide) hc

theorem decimal_natCast_inj {m n : Nat} : decimal m = decimal n ↔ m = n := by
  constructor
  · intro h
    rw [decimal_natCast, decimal_natCast] at h
    rw [← number_digits m, ← number_digits n, ← chars_ofChars (digits m), h, chars_ofChars]
  · rintro rfl
    rfl

/-- Digits stand for a number below the power of ten with as many zeros. -/
theorem number_lt {ds : List Char} (hds : ∀ c ∈ ds, c.isDigit = true) :
    number ds < Nat.pow 10 ds.length := by
  induction ds using List.reverseRecOn with
  | nil => decide
  | append_singleton ds c ih =>
    rw [List.forall_mem_append, List.forall_mem_singleton] at hds
    have hlt := ih hds.1
    have hc := hds.2
    simp only [Char.isDigit, Bool.and_eq_true, decide_eq_true_eq] at hc
    have hle : c.toNat ≤ 57 := by
      have := hc.2
      rw [UInt32.le_iff_toNat_le] at this
      exact this
    simp only [number, Nat.ofDigitChars_append, Nat.ofDigitChars_cons, Nat.ofDigitChars_nil,
      List.length_append, List.length_singleton] at hlt ⊢
    have hzero : '0'.toNat = 48 := rfl
    have hpow : Nat.pow 10 (ds.length + 1) = Nat.pow 10 ds.length * 10 := rfl
    omega

/-- A number that was read has no more digits than the run that it was read from. -/
theorem length_digits_number_le {ds : List Char} (hne : ds ≠ []) (hds : ∀ c ∈ ds, c.isDigit = true) :
    (digits (number ds)).length ≤ ds.length :=
  (Nat.length_toDigits_le_iff (by decide) (List.length_pos_of_ne_nil hne)).2 (number_lt hds)

/-- The characters of digits are all there is to them. -/
theorem ofChars_chars {t : Text} (ht : ∀ c ∈ t, c.isDigit = true) :
    ofChars t.chars = t ∧ ∀ c ∈ t.chars, c.isDigit = true := by
  induction t with
  | nil => exact ⟨rfl, fun _ hc => by cases hc⟩
  | cons c t ih =>
    obtain ⟨hc, ht⟩ := List.forall_mem_cons.1 ht
    obtain ⟨heq, hall⟩ := ih ht
    cases c with
    | char c => exact ⟨congrArg (CodePoint.char c :: ·) heq, List.forall_mem_cons.2 ⟨hc, hall⟩⟩
    | half place => cases hc

/-- A number that was read can be written. -/
theorem isWritable_of_readNumber {ds : List Char} {n : Nat} (hne : ds ≠ [])
    (hds : ∀ c ∈ ds, c.isDigit = true) (h : readNumber ds = .ok n) : isWritable n = true := by
  unfold readNumber at h
  split at h
  · cases h
  · next hle =>
    cases h
    rw [isWritable, decide_eq_true_eq, Int.natAbs_natCast]
    exact (length_digits_number_le hne hds).trans (Nat.le_of_not_lt hle)

end Text

/-! ## Written segments -/

/-- A segment that a written path can have. -/
def Segment.IsWritten : Segment → Prop
  | key name => name = [] ∨ name.all CodePoint.isDigit = false
  | index position => 0 ≤ position ∧ Text.isWritable position = true

theorem Path.isWritten_of_readRun {cs : Text} {seg : Segment} (h : readRun cs = .ok seg) :
    seg.IsWritten := by
  unfold readRun at h
  split at h
  · next hd =>
    cases hn : Text.readNumber cs.chars with
    | error e =>
      rw [hn] at h
      cases h
    | ok n =>
      rw [hn] at h
      cases h
      obtain ⟨heq, hds⟩ := Text.ofChars_chars (List.all_eq_true.1 hd.2)
      have hne : cs.chars ≠ [] := by
        rintro hnil
        rw [hnil] at heq
        exact hd.1 heq.symm
      exact ⟨Int.natCast_nonneg n, Text.isWritable_of_readNumber hne hds hn⟩
  · next hd =>
    cases h
    by_cases hcs : cs = []
    · exact Or.inl hcs
    · exact Or.inr (by simpa [hcs] using hd)

/-- What is read item by item comes from the items. -/
theorem exists_of_mem_mapM {α β ε : Type} {f : α → Except ε β} {xs : List α} {ys : List β} {y : β}
    (h : xs.mapM f = .ok ys) (hy : y ∈ ys) : ∃ x ∈ xs, f x = .ok y := by
  induction xs generalizing ys with
  | nil =>
    cases h
    cases hy
  | cons x xs ih =>
    rw [List.mapM_cons] at h
    obtain ⟨z, hx, h⟩ := bind_eq_ok.1 h
    obtain ⟨zs, hxs, h⟩ := bind_eq_ok.1 h
    cases h
    rcases List.mem_cons.1 hy with rfl | hy
    · exact ⟨x, List.mem_cons_self, hx⟩
    · obtain ⟨w, hw, hfw⟩ := ih hxs hy
      exact ⟨w, List.mem_cons_of_mem x hw, hfw⟩

/-- The segments of a written path are written. -/
theorem Path.isWritten_of_parse {t : Text} {path : Path} (h : parse t = .ok path) :
    ∀ seg ∈ path, seg.IsWritten := by
  intro seg hseg
  obtain ⟨token, -, hrun⟩ := exists_of_mem_mapM h hseg
  exact isWritten_of_readRun hrun

theorem Path.isWritten_of_read {t : Text} {path : Path} (h : read t = .ok path) :
    ∀ seg ∈ path, seg.IsWritten := by
  unfold read at h
  cases hp : parse t with
  | error e => simp [hp, Except.mapError] at h
  | ok path' =>
    simp only [hp, Except.mapError, Except.ok.injEq] at h
    subst h
    exact isWritten_of_parse hp

namespace Segment.IsWritten

variable {seg seg' : Segment}

theorem isWritable (h : seg.IsWritten) : seg.isWritable = true := by
  cases seg with
  | key k => rfl
  | index p => exact h.2

theorem path_isWritable {path : Path} (h : ∀ seg ∈ path, seg.IsWritten) :
    path.isWritable = true :=
  List.all_eq_true.2 fun seg hseg => (h seg hseg).isWritable

theorem ne_decimal {name : Text} (h : (key name).IsWritten) (n : Nat) :
    name ≠ Text.decimal n := by
  rintro rfl
  rcases h with h | h
  · exact Text.decimal_natCast_ne_nil n h
  · rw [Text.all_isDigit_decimal] at h
    cases h

/-- Different written segments have different names. -/
theorem spelling_inj (h : seg.IsWritten) (h' : seg'.IsWritten) :
    seg.spelling = seg'.spelling ↔ seg = seg' := by
  constructor
  · intro hname
    cases seg with
    | key k =>
      cases seg' with
      | key k' => exact congrArg key hname
      | index p' =>
        obtain ⟨n, rfl⟩ := Int.eq_ofNat_of_zero_le h'.1
        exact absurd hname (h.ne_decimal n)
    | index p =>
      obtain ⟨m, rfl⟩ := Int.eq_ofNat_of_zero_le h.1
      cases seg' with
      | key k' => exact absurd hname.symm (h'.ne_decimal m)
      | index p' =>
        obtain ⟨n, rfl⟩ := Int.eq_ofNat_of_zero_le h'.1
        exact congrArg (fun n : Nat => index n) (Text.decimal_natCast_inj.1 hname)
  · exact congrArg spelling

end Segment.IsWritten

theorem Path.isWritable_of_read {t : Text} {path : Path} (h : read t = .ok path) :
    path.isWritable = true :=
  Segment.IsWritten.path_isWritable (isWritten_of_read h)

/-! ## Items at written positions -/

section
variable {α : Type} {fill new : α} {xs ys : List α} {p q : Int}

theorem itemAt_of_nonneg (hp : 0 ≤ p) : itemAt fill xs p = .ok (xs[p.toNat]?.getD fill) := by
  unfold itemAt
  split
  · next hlt =>
    rw [offset?_of_nonneg hp hlt]
  · rw [List.getElem?_eq_none (by omega)]
    rfl

/-- What is found at a position after another has been assigned to is what was found there. -/
theorem itemAt_assignAt_of_ne (hp : 0 ≤ p) (hq : 0 ≤ q) (hne : q ≠ p)
    (h : assignAt fill xs p new = .ok ys) : itemAt fill ys q = itemAt fill xs q := by
  rw [itemAt_of_nonneg hq, itemAt_of_nonneg hq]
  obtain ⟨n, hlt, ho, rfl⟩ | ⟨hle, rfl⟩ := assignAt_eq_ok h
  · rw [offset?_of_nonneg hp hlt] at ho
    cases ho
    rw [List.getElem?_set_ne (by omega)]
  · congr 1
    rw [List.append_assoc, List.getElem?_append]
    split
    · rfl
    · rw [List.getElem?_eq_none (l := xs) (by omega), List.getElem?_append]
      split
      · rw [List.getElem?_replicate]
        split <;> rfl
      · rw [List.getElem?_eq_none (by simp at *; omega)]

theorem Entries.find?_numbered_decimal (start n : Nat) (xs : List α) :
    (numbered start xs).find? (.text (Text.decimal n)) =
      if start ≤ n then xs[n - start]? else none := by
  induction xs generalizing start with
  | nil => simp [numbered, find?]
  | cons x xs ih =>
    rw [numbered, find?, ih]
    simp only [MapKey.same_text_iff, MapKey.atom.injEq, Atom.text.injEq, Text.decimal_natCast_inj]
    by_cases heq : start = n
    · subst heq
      simp
    · rw [if_neg heq]
      by_cases hle : start ≤ n
      · rw [if_pos hle, if_pos (by omega), show n - start = n - (start + 1) + 1 by omega]
        rfl
      · rw [if_neg hle, if_neg (by omega)]

theorem Entries.find?_numbered_of_ne {name : Text} (h : ∀ n : Nat, name ≠ Text.decimal n)
    (start : Nat) (xs : List α) : (numbered start xs).find? (.text name) = none := by
  induction xs generalizing start with
  | nil => rfl
  | cons x xs ih =>
    rw [numbered, find?, if_neg, ih]
    rw [MapKey.same_text_iff, MapKey.atom.injEq, Atom.text.injEq]
    exact fun heq => h start heq.symm

/-- No item stands under a name that is no position of one. -/
theorem Entries.find?_numbered_eq_none {name : Text} {xs : List α}
    (h : ¬ ∃ n, n < xs.length ∧ name = Text.decimal n) :
    (numbered 0 xs).find? (.text name) = none := by
  by_cases hdigits : ∃ n : Nat, name = Text.decimal n
  · obtain ⟨n, rfl⟩ := hdigits
    have hge : xs.length ≤ n := Nat.le_of_not_lt fun hlt => h ⟨n, hlt, rfl⟩
    rw [find?_numbered_decimal, if_pos (Nat.zero_le n), Nat.sub_zero,
      List.getElem?_eq_none hge]
  · exact find?_numbered_of_ne (fun n heq => hdigits ⟨n, heq⟩) 0 xs

end

/-! ## Slots at written segments -/

namespace Cell

variable {c c' : Cell} {seg seg' : Segment} {new slot w : Value}

/-- A written segment addresses a slot of every cell. -/
theorem lookup_isOk (h : seg.IsWritten) (c : Cell) : ∃ w, c.lookup seg = .ok w := by
  cases c with
  | mapping kind es => exact ⟨_, lookup_mapping h.isWritable kind es⟩
  | list xs =>
    cases seg with
    | key k => exact ⟨_, rfl⟩
    | index p => exact ⟨_, itemAt_of_nonneg h.1⟩
  | tuple xs => exact ⟨_, rfl⟩
  | set ks => exact ⟨_, rfl⟩

/-- The items of a list are found in a mapping that has them under their positions. -/
theorem lookup_numbered (h : seg.IsWritten) (kind : MappingKind) (xs : List Value) :
    (mapping kind (Entries.numbered 0 xs)).lookup seg = (list xs).lookup seg := by
  rw [lookup_mapping h.isWritable]
  cases seg with
  | key k =>
    simp only [lookup, Segment.spelling, Entries.find?_numbered_of_ne h.ne_decimal, Option.getD_none]
  | index p =>
    obtain ⟨n, rfl⟩ := Int.eq_ofNat_of_zero_le h.1
    simp only [lookup, Segment.spelling, itemAt_of_nonneg h.1, Entries.find?_numbered_decimal,
      Nat.zero_le, if_true, Nat.sub_zero, Int.toNat_natCast]

/-- Assigning to a slot does not touch the others. -/
theorem lookup_assign_of_ne (h : c.assign new seg = .ok c') (hs : seg.IsWritten)
    (hs' : seg'.IsWritten) (hne : seg' ≠ seg) : c'.lookup seg' = c.lookup seg' := by
  obtain ⟨kind, es, rfl, rfl⟩ | ⟨xs, p, ys, rfl, rfl, ha, rfl⟩ := assign_eq_ok h
  · rw [lookup_mapping hs'.isWritable, lookup_mapping hs'.isWritable, Entries.find?_insert_text,
      if_neg]
    exact fun hname => hne ((hs.spelling_inj hs').1 hname).symm
  · cases seg' with
    | key k => rfl
    | index q => exact itemAt_assignAt_of_ne hs.1 hs'.1 (fun hqp => hne (congrArg _ hqp)) ha

/-- What stands in one slot is beside what stands in another. -/
theorem lookup_beside (hl : c.lookup seg = .ok slot) (hn : slot.isNone = false)
    (hl' : c.lookup seg' = .ok w) (hn' : w.isNone = false) (hs : seg.IsWritten)
    (hs' : seg'.IsWritten) (hne : seg' ≠ seg) :
    ∃ pre post, c.values = pre ++ slot :: post ∧ w ∈ pre ++ post := by
  -- emptying the one slot leaves the other as it is, so `w` is not what is taken away
  obtain ⟨c', hc'⟩ := assign_isOk_of_assign (assign_lookup hl hn) .none
  obtain ⟨pre, post, hval', hval⟩ := assign_values hc' hl
  rcases hval with hval | ⟨rfl, -⟩
  · refine ⟨pre, post, hval, ?_⟩
    rw [← lookup_assign_of_ne hc' hs hs' hne] at hl'
    rcases lookup_mem hl' with rfl | hw
    · cases hn'
    · rw [hval'] at hw
      rcases List.mem_append.1 hw with hw | hw
      · exact List.mem_append_left _ hw
      · rcases List.mem_cons.1 hw with rfl | hw
        · cases hn'
        · exact List.mem_append_right _ hw
  · cases hn

end Cell

end PathStore
