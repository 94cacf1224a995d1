import Mathlib
import PathStore.Proofs.Runs
import PathStore.Proofs.Written

/-!
# Written forms of paths

The paths that written paths stand for are the canonical ones (`Path.IsCanonical`): names that are
not empty, hold no dot or bracket and are more than digits, and positions from the start that are
short enough to be read.  The written form of a canonical path has the spellings of its segments as
runs (`Path.runs_spelling`), so that it stands for the path again; no text stands for a path that is
not canonical (`Path.parse_format_iff`).
-/

namespace PathStore

/-! ## Canonical paths -/

/-- A segment that a run of a written path stands for. -/
def Segment.IsCanonical : Segment → Prop
  | key name =>
    name ≠ [] ∧ (∀ c ∈ name, c ≠ .char '[' ∧ c ≠ .char '.' ∧ c ≠ .char ']') ∧
      ∃ c ∈ name, c.isDigit = false
  | index position => 0 ≤ position ∧ (Text.decimal position).length ≤ 4300

/-- All segments of the path are canonical. -/
def Path.IsCanonical (path : Path) : Prop :=
  ∀ seg ∈ path, seg.IsCanonical

instance : DecidablePred Segment.IsCanonical
  | .key name => inferInstanceAs (Decidable (name ≠ [] ∧
      (∀ c ∈ name, c ≠ .char '[' ∧ c ≠ .char '.' ∧ c ≠ .char ']') ∧ ∃ c ∈ name, c.isDigit = false))
  | .index position =>
    inferInstanceAs (Decidable (0 ≤ position ∧ (Text.decimal position).length ≤ 4300))

instance : DecidablePred Path.IsCanonical := fun path =>
  inferInstanceAs (Decidable (∀ seg ∈ path, seg.IsCanonical))

theorem isDelimiter_eq_false_iff {c : CodePoint} :
    isDelimiter c = false ↔ c ≠ .char '[' ∧ c ≠ .char '.' ∧ c ≠ .char ']' := by
  simp [isDelimiter, and_assoc]

/-! ## Numbers -/

namespace Text

theorem length_decimal_natCast (n : Nat) : (decimal n).length = (digits n).length := by
  rw [decimal_natCast, ofChars, List.length_map]

end Text

namespace Path

/-! ## Reading a run -/

/-- A run stands for a canonical segment. -/
theorem isCanonical_of_readRun {r : Text} {seg : Segment} (hne : r ≠ [])
    (hr : ∀ c ∈ r, isDelimiter c = false) (h : readRun r = .ok seg) : seg.IsCanonical := by
  unfold readRun at h
  split at h
  · next hd =>
    obtain ⟨heq, hds⟩ := Text.ofChars_chars (List.all_eq_true.1 hd.2)
    have hne' : r.chars ≠ [] := by
      rintro hnil
      rw [hnil] at heq
      exact hne heq.symm
    unfold Text.readNumber at h
    split at h
    · cases h
    · next hle =>
      cases h
      refine ⟨Int.natCast_nonneg _, ?_⟩
      rw [Text.length_decimal_natCast]
      have hlen := Text.length_digits_number_le hne' hds
      have hmax : Text.maxDigits = 4300 := rfl
      omega
  · next hd =>
    cases h
    refine ⟨hne, fun c hc => isDelimiter_eq_false_iff.1 (hr c hc), ?_⟩
    simpa [hne] using hd

/-- The spelling of a canonical segment is a run that stands for it. -/
theorem readRun_spelling {seg : Segment} (h : seg.IsCanonical) :
    seg.spelling ≠ [] ∧ (∀ c ∈ seg.spelling, isDelimiter c = false) ∧
      readRun seg.spelling = .ok seg := by
  cases seg with
  | key name =>
    obtain ⟨hne, hdelim, c, hc, hdigit⟩ := h
    refine ⟨hne, fun c hc => isDelimiter_eq_false_iff.2 (hdelim c hc), ?_⟩
    have hall : name.all CodePoint.isDigit = false := List.all_eq_false.2 ⟨c, hc, by simp [hdigit]⟩
    rw [readRun, if_neg]
    · rfl
    · simp [Segment.spelling, hall]
  | index position =>
    obtain ⟨hpos, hlen⟩ := h
    obtain ⟨n, rfl⟩ := Int.eq_ofNat_of_zero_le hpos
    have hdigits := Text.all_isDigit_decimal n
    refine ⟨Text.decimal_natCast_ne_nil n, fun c hc => ?_, ?_⟩
    · exact CodePoint.not_isDelimiter_of_isDigit (List.all_eq_true.1 hdigits c hc)
    · rw [Text.length_decimal_natCast] at hlen
      have hmax : Text.maxDigits = 4300 := rfl
      rw [Segment.spelling, readRun, if_pos ⟨Text.decimal_natCast_ne_nil n, hdigits⟩,
        Text.decimal_natCast, Text.chars_ofChars, Text.readNumber, if_neg (by omega),
        Text.number_digits]
      rfl

/-! ## Reading what was written -/

/-- After some text, the spelling of a path is empty or starts with a delimiter. -/
theorem head?_spellingAfter_true (path : Path) :
    ∀ d ∈ (spellingAfter true path).head?, isDelimiter d = true := by
  intro d hd
  cases path with
  | nil => cases hd
  | cons seg path =>
    cases seg <;>
    · cases hd
      rfl

/-- The runs of the spelling of a canonical path are the spellings of its segments. -/
theorem runs_spellingAfter {path : Path} (h : path.IsCanonical) (started : Bool) :
    (spellingAfter started path).runs = path.map Segment.spelling := by
  induction path generalizing started with
  | nil => exact Text.runs_nil
  | cons seg path ih =>
    obtain ⟨hseg, hpath⟩ := List.forall_mem_cons.1 h
    cases seg with
    | index position =>
      have hne : Text.decimal position ≠ [] := (readRun_spelling hseg).1
      have hdelim : ∀ c ∈ Text.decimal position, isDelimiter c = false := (readRun_spelling hseg).2.1
      have hform : spellingAfter started (.index position :: path) =
          .char '[' :: (Text.decimal position ++ .char ']' :: spellingAfter true path) := by
        simp only [spellingAfter, Segment.bracketed, List.append_assoc]
        rfl
      rw [hform, Text.runs_cons rfl, Text.runs_append_cons rfl, Text.runs_eq_singleton hne hdelim,
        ih hpath]
      rfl
    | key name =>
      have hne : name ≠ [] := (readRun_spelling hseg).1
      have hdelim : ∀ c ∈ name, isDelimiter c = false := (readRun_spelling hseg).2.1
      have hrun : (name ++ spellingAfter true path).runs = name :: path.map Segment.spelling := by
        rw [Text.runs_append hne hdelim (head?_spellingAfter_true path), ih hpath]
      have htrue : (started || decide (name ≠ [])) = true := by simp [hne]
      rw [spellingAfter, htrue]
      cases started with
      | false => exact hrun
      | true => exact (Text.runs_cons rfl _).trans hrun

theorem runs_spelling {path : Path} (h : path.IsCanonical) :
    path.spelling.runs = path.map Segment.spelling :=
  runs_spellingAfter h false

theorem parse_spelling {path : Path} (h : path.IsCanonical) : parse path.spelling = .ok path := by
  rw [parse_eq_mapM_runs, runs_spelling h, List.mapM_map]
  induction path with
  | nil => rfl
  | cons seg path ih =>
    obtain ⟨hseg, hpath⟩ := List.forall_mem_cons.1 h
    obtain ⟨-, -, hread⟩ := readRun_spelling hseg
    rw [List.mapM_cons, Function.comp_apply, hread, ih hpath]
    rfl

/-- The positions of a canonical path are short enough to be written as well. -/
theorem isWritable_of_isCanonical {path : Path} (h : path.IsCanonical) : path.isWritable = true := by
  refine List.all_eq_true.2 fun seg hseg => ?_
  cases seg with
  | key name => rfl
  | index position =>
    obtain ⟨hpos, hlen⟩ := h _ hseg
    obtain ⟨n, rfl⟩ := Int.eq_ofNat_of_zero_le hpos
    rw [Text.length_decimal_natCast] at hlen
    exact decide_eq_true hlen

/-- A canonical path has a written form, and is read back from it. -/
theorem parse_format {path : Path} (h : path.IsCanonical) :
    ∃ t, path.format = .ok t ∧ parse t = .ok path :=
  ⟨path.spelling, format_of_isWritable (isWritable_of_isCanonical h), parse_spelling h⟩

/-- Written paths stand for canonical paths. -/
theorem isCanonical_of_parse {t : Text} {path : Path} (h : parse t = .ok path) :
    path.IsCanonical := by
  rw [parse_eq_mapM_runs] at h
  intro seg hseg
  obtain ⟨r, hr, hrun⟩ := exists_of_mem_mapM h hseg
  obtain ⟨hne, hdelim⟩ := Text.of_mem_runs hr
  exact isCanonical_of_readRun hne hdelim hrun

/-- A path is what some text stands for exactly if it is canonical, and exactly then it has a written
form that stands for it; so writing back what was read and reading it again changes nothing. -/
theorem parse_format_iff (path : Path) :
    ((∃ t, parse t = .ok path) ↔ path.IsCanonical) ∧
      ((∃ t, path.format = .ok t ∧ parse t = .ok path) ↔ path.IsCanonical) ∧
      ∀ t, parse t = .ok path → ∃ t', path.format = .ok t' ∧ parse t' = .ok path := by
  refine ⟨⟨?_, fun h => ?_⟩, ⟨?_, parse_format⟩, ?_⟩
  · rintro ⟨t, ht⟩
    exact isCanonical_of_parse ht
  · obtain ⟨t, -, ht⟩ := parse_format h
    exact ⟨t, ht⟩
  · rintro ⟨t, -, ht⟩
    exact isCanonical_of_parse ht
  · intro t ht
    exact parse_format (isCanonical_of_parse ht)

/-- Leading zeros and stray delimiters are gone after one reading, and then nothing changes. -/
theorem parse_format_leading_zeros :
    parse "[007]x..y" = .ok [.index 7, .key "x", .key "y"] ∧
      format [.index 7, .key "x", .key "y"] = .ok "[7].x.y" ∧
      ∃ t, format [.index 7, .key "x", .key "y"] = .ok t ∧
        parse t = .ok [.index 7, .key "x", .key "y"] :=
  ⟨by cbv, by cbv, (parse_format_iff _).2.2 "[007]x..y" (by cbv)⟩

example : ¬ IsCanonical [.key "12"] ∧ ¬ IsCanonical [.index (-1)] ∧ IsCanonical [.key "1 2"] := by
  decide +kernel

end Path

end PathStore
