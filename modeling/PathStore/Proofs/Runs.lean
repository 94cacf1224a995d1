import Mathlib
import PathStore.Fault

/-!
# Paths as runs between delimiters

The runs of a text are its longest pieces without delimiters (`Text.runs`).  Scanning a written path
finds exactly its runs, whether they stand in brackets or not (`PathToken.map_run_scan`), so a written
path is read run by run (`Path.parse_eq_mapM_runs`).  Each run stands for one segment
(`Segment.ofRun`), and only one of too many digits is refused (`Path.parse_outcome`); it makes no
difference which delimiters stand between the runs (`Text.runs_bracketsAsDots`), and a path that is
written around a delimiter is read in two parts (`Path.parse_append`).
-/

namespace PathStore

namespace Text

/-! ## Runs of a text -/

/-- The longest pieces of a text that are not empty and hold no delimiter, from left to right. -/
def runs (t : Text) : List Text :=
  (t.splitOnP isDelimiter).filter (· ≠ [])

variable {s t r : Text} {d : CodePoint}

@[simp] theorem runs_nil : runs [] = [] := by
  simp [runs]

/-- A delimiter separates the runs before it from those after it. -/
theorem runs_append_cons (hd : isDelimiter d = true) (s t : Text) :
    runs (s ++ d :: t) = runs s ++ runs t := by
  unfold runs
  rw [List.splitOnP_append_cons s t hd, List.filter_append]

/-- A delimiter at the start belongs to no run. -/
theorem runs_cons (hd : isDelimiter d = true) (t : Text) : runs (d :: t) = runs t :=
  runs_append_cons hd [] t

/-- A text without delimiters is its only run. -/
theorem runs_eq_singleton (hne : s ≠ []) (hs : ∀ c ∈ s, isDelimiter c = false) : runs s = [s] := by
  unfold runs
  rw [List.splitOnP_eq_singleton hs]
  simp [hne]

/-- A run ends at the end of the text or before a delimiter. -/
theorem runs_append (hne : s ≠ []) (hs : ∀ c ∈ s, isDelimiter c = false)
    (ht : ∀ d ∈ t.head?, isDelimiter d = true) : runs (s ++ t) = s :: runs t := by
  cases t with
  | nil => rw [List.append_nil, runs_eq_singleton hne hs, runs_nil]
  | cons d t =>
    have hd : isDelimiter d = true := ht d rfl
    rw [runs_append_cons hd, runs_eq_singleton hne hs, runs_cons hd, List.singleton_append]

/-- Where no delimiter stands a run starts, which goes on to the next delimiter. -/
theorem runs_cons_of_not (hd : isDelimiter d = false) (t : Text) :
    runs (d :: t) =
      (d :: t.takeWhile (!isDelimiter ·)) :: runs (t.dropWhile (!isDelimiter ·)) := by
  have hrun : ∀ c ∈ d :: t.takeWhile (!isDelimiter ·), isDelimiter c = false := by
    refine List.forall_mem_cons.2 ⟨hd, fun c hc => ?_⟩
    simpa using List.all_eq_true.1 List.all_takeWhile c hc
  have hrest : ∀ c ∈ (t.dropWhile (!isDelimiter ·)).head?, isDelimiter c = true := by
    intro c hc
    have hnot := List.head?_dropWhile_not (!isDelimiter ·) t
    rw [hc] at hnot
    simpa using hnot
  conv_lhs => rw [← List.takeWhile_append_dropWhile (p := (!isDelimiter ·)) (l := t)]
  rw [← List.cons_append, runs_append (List.cons_ne_nil _ _) hrun hrest]

/-- A text has no runs exactly if all of it is delimiters. -/
theorem runs_eq_nil_iff : runs t = [] ↔ ∀ c ∈ t, isDelimiter c = true := by
  induction t with
  | nil => simp
  | cons c t ih =>
    cases hc : isDelimiter c with
    | true =>
      rw [runs_cons hc, ih]
      simp [hc]
    | false =>
      rw [runs_cons_of_not hc]
      simp [hc]

/-- The text with a dot in the place of every bracket. -/
def bracketsAsDots (t : Text) : Text :=
  t.map fun c => if isDelimiter c then .char '.' else c

/-- Brackets separate runs as dots do. -/
theorem runs_bracketsAsDots (t : Text) : runs (bracketsAsDots t) = runs t := by
  suffices hsplit : (bracketsAsDots t).splitOnP isDelimiter = t.splitOnP isDelimiter by
    unfold runs
    rw [hsplit]
  induction t with
  | nil => rfl
  | cons c t ih =>
    have hcons : bracketsAsDots (c :: t) =
        (if isDelimiter c then .char '.' else c) :: bracketsAsDots t := rfl
    rw [hcons, List.splitOnP_cons_eq_if_modifyHead, List.splitOnP_cons_eq_if_modifyHead, ih]
    by_cases hc : isDelimiter c = true
    · rw [if_pos hc, if_pos hc, if_pos (show isDelimiter (.char '.') = true from rfl)]
    · rw [if_neg hc, if_neg hc]

/-- Nothing that splitting at delimiters leaves holds one. -/
theorem not_isDelimiter_of_mem_splitOnP (hr : r ∈ List.splitOnP isDelimiter t) :
    ∀ c ∈ r, isDelimiter c = false := by
  induction t generalizing r with
  | nil =>
    rw [List.splitOnP_nil, List.mem_singleton] at hr
    subst hr
    exact fun _ hc => by cases hc
  | cons c t ih =>
    rw [List.splitOnP_cons_eq_if_modifyHead] at hr
    split at hr
    · rcases List.mem_cons.1 hr with rfl | hr
      · exact fun _ hc => by cases hc
      · exact ih hr
    · next hc =>
      cases hp : List.splitOnP isDelimiter t with
      | nil => simp [hp] at hr
      | cons q qs =>
        rw [hp] at hr ih
        rcases List.mem_cons.1 hr with rfl | hr
        · exact List.forall_mem_cons.2 ⟨by simpa using hc, ih List.mem_cons_self⟩
        · exact ih (List.mem_cons_of_mem q hr)

/-- A run is not empty and holds no delimiter. -/
theorem of_mem_runs (hr : r ∈ runs t) : r ≠ [] ∧ ∀ c ∈ r, isDelimiter c = false := by
  obtain ⟨hr, hne⟩ := List.mem_filter.1 hr
  exact ⟨by simpa using hne, not_isDelimiter_of_mem_splitOnP hr⟩

/-! ## Runs of digits -/

/-- A run of digits that is too long to be read. -/
def IsOverlong (run : Text) : Prop :=
  run.all CodePoint.isDigit = true ∧ maxDigits < run.length

/-- Digits are characters, so none of them is lost among the characters. -/
theorem length_chars_of_isDigit (h : t.all CodePoint.isDigit = true) :
    t.chars.length = t.length := by
  induction t with
  | nil => rfl
  | cons c t ih =>
    simp only [List.all_cons, Bool.and_eq_true] at h
    cases c with
    | char c =>
      show (c :: chars t).length = t.length + 1
      rw [List.length_cons, ih h.2]
    | half place => cases h.1

end Text

/-- The segment that a run stands for: a position where it is all digits, and else a name. -/
def Segment.ofRun (run : Text) : Segment :=
  if run.all CodePoint.isDigit then .index (Text.number run.chars) else .key run

/-! ## Scanning -/

theorem CodePoint.not_isDelimiter_of_isDigit {c : CodePoint} (h : c.isDigit = true) :
    isDelimiter c = false := by
  cases hd : isDelimiter c with
  | false => rfl
  | true =>
    simp only [isDelimiter, Bool.or_eq_true, beq_iff_eq] at hd
    rcases hd with (rfl | rfl) | rfl <;> cases h

/-- The tokens of a text are its runs. -/
theorem PathToken.map_run_scan (t : Text) : (scan t).map run = t.runs := by
  fun_induction scan t with
  | case1 => rfl
  | case2 c cs hc ds h ih =>
    obtain ⟨rfl, hne, hhead⟩ := h
    obtain ⟨rest, hrest⟩ : ∃ rest, cs.dropWhile CodePoint.isDigit = .char ']' :: rest := by
      cases hrest : cs.dropWhile CodePoint.isDigit with
      | nil => simp [hrest] at hhead
      | cons d rest =>
        simp only [hrest, List.head?_cons, Option.some.injEq] at hhead
        exact ⟨rest, by rw [hhead]⟩
    have hds : ∀ d ∈ ds, isDelimiter d = false := fun d hd =>
      CodePoint.not_isDelimiter_of_isDigit (List.all_eq_true.1 List.all_takeWhile d hd)
    have hcs : cs = ds ++ .char ']' :: rest := by
      rw [← hrest, List.takeWhile_append_dropWhile]
    rw [List.map_cons, ih, hrest, List.tail_cons, Text.runs_cons rfl]
    conv_rhs => rw [hcs]
    rw [Text.runs_append_cons rfl, Text.runs_eq_singleton hne hds]
    rfl
  | case3 c cs hc ds h ih => rw [ih, Text.runs_cons hc]
  | case4 c cs hc ih =>
    rw [List.map_cons, ih, Text.runs_cons_of_not (by simpa using hc)]
    rfl

namespace Path

/-! ## Reading run by run -/

/-- A written path is read run by run. -/
theorem parse_eq_mapM_runs (t : Text) : parse t = t.runs.mapM readRun := by
  rw [← PathToken.map_run_scan, List.mapM_map]
  rfl

/-- A run is read unless it has too many digits. -/
theorem readRun_of_not_isOverlong {run : Text} (hne : run ≠ []) (h : ¬ run.IsOverlong) :
    readRun run = .ok (Segment.ofRun run) := by
  unfold readRun Segment.ofRun
  by_cases hd : run.all CodePoint.isDigit = true
  · have hlen : ¬ Text.maxDigits < run.length := fun hlt => h ⟨hd, hlt⟩
    rw [if_pos ⟨hne, hd⟩, if_pos hd, Text.readNumber, Text.length_chars_of_isDigit hd, if_neg hlen]
    rfl
  · rw [if_neg (fun hboth => hd hboth.2), if_neg hd]

theorem readRun_of_isOverlong {run : Text} (h : run.IsOverlong) :
    readRun run = .error ⟨run.length⟩ := by
  obtain ⟨hd, hlt⟩ := h
  have hne : run ≠ [] := by
    rintro rfl
    cases hlt
  rw [readRun, if_pos ⟨hne, hd⟩, Text.readNumber, Text.length_chars_of_isDigit hd, if_pos hlt]
  rfl

/-- A written path is read to what its runs stand for, or refused for a run of too many digits. -/
theorem parse_outcome (t : Text) :
    ((∀ run ∈ t.runs, ¬ run.IsOverlong) ∧ parse t = .ok (t.runs.map Segment.ofRun)) ∨
      ∃ run ∈ t.runs, run.IsOverlong ∧ parse t = .error ⟨run.length⟩ := by
  have hne : ∀ run ∈ t.runs, run ≠ [] := fun run hrun => (Text.of_mem_runs hrun).1
  rw [parse_eq_mapM_runs]
  generalize t.runs = runs at hne
  induction runs with
  | nil =>
    left
    exact ⟨fun _ h => (List.not_mem_nil h).elim, rfl⟩
  | cons run runs ih =>
    obtain ⟨hrun, hruns⟩ := List.forall_mem_cons.1 hne
    rw [List.mapM_cons]
    by_cases hover : run.IsOverlong
    · right
      refine ⟨run, List.mem_cons_self, hover, ?_⟩
      rw [readRun_of_isOverlong hover]
      rfl
    · rw [readRun_of_not_isOverlong hrun hover]
      rcases ih hruns with ⟨hall, hread⟩ | ⟨long, hmem, hlong, hread⟩
      · left
        refine ⟨List.forall_mem_cons.2 ⟨hover, hall⟩, ?_⟩
        rw [hread]
        rfl
      · right
        refine ⟨long, List.mem_cons_of_mem run hmem, hlong, ?_⟩
        rw [hread]
        rfl

/-- A text is read to the path of its runs, or refused for a run of too many digits. -/
theorem read_outcome (t : Text) :
    ((∀ run ∈ t.runs, ¬ run.IsOverlong) ∧ read t = .ok (t.runs.map Segment.ofRun)) ∨
      ∃ run ∈ t.runs, run.IsOverlong ∧ read t = .error (.tooManyDigits run.length) := by
  unfold read
  rcases parse_outcome t with ⟨hall, hparse⟩ | ⟨run, hmem, hover, hparse⟩
  · rw [hparse]
    exact Or.inl ⟨hall, rfl⟩
  · rw [hparse]
    exact Or.inr ⟨run, hmem, hover, rfl⟩

/-- A text that is nothing but too many digits is refused. -/
theorem read_of_isOverlong {run : Text} (h : run.IsOverlong) :
    read run = .error (.tooManyDigits run.length) := by
  have hne : run ≠ [] := by
    rintro rfl
    cases h.2
  have hruns : run.runs = [run] := Text.runs_eq_singleton hne fun c hc =>
    CodePoint.not_isDelimiter_of_isDigit (List.all_eq_true.1 h.1 c hc)
  have houtcome := read_outcome run
  rw [hruns] at houtcome
  rcases houtcome with ⟨hall, -⟩ | ⟨run', hmem, -, hread⟩
  · exact absurd h (hall run List.mem_cons_self)
  · rw [List.mem_singleton.1 hmem] at hread
    exact hread

/-- What is written around a delimiter is read in two parts. -/
theorem parse_append {d : CodePoint} (hd : isDelimiter d = true) (s t : Text) :
    parse (s ++ d :: t) = do return (← parse s) ++ (← parse t) := by
  rw [parse_eq_mapM_runs, parse_eq_mapM_runs, parse_eq_mapM_runs, Text.runs_append_cons hd,
    List.mapM_append]

/-- A written path is cut into its runs, each of which stands for one segment, and it is refused
exactly for a run of too many digits.  Brackets separate runs as dots do, wherever they stand, and
what is written around a delimiter is read in two parts. -/
theorem parse_splits (t : Text) :
    (∀ path, parse t = .ok path ↔
        (∀ run ∈ t.runs, ¬ run.IsOverlong) ∧ path = t.runs.map Segment.ofRun) ∧
      ((∃ e, parse t = .error e) ↔ ∃ run ∈ t.runs, run.IsOverlong) ∧
      parse t.bracketsAsDots = parse t ∧
      ∀ d t' path path', isDelimiter d = true → parse t = .ok path → parse t' = .ok path' →
        parse (t ++ d :: t') = .ok (path ++ path') := by
  refine ⟨?_, ?_, ?_, ?_⟩
  · intro path
    rcases parse_outcome t with ⟨hall, hread⟩ | ⟨run, hmem, hlong, hread⟩
    · rw [hread]
      constructor
      · intro h
        cases h
        exact ⟨hall, rfl⟩
      · rintro ⟨-, rfl⟩
        rfl
    · rw [hread]
      constructor
      · intro h
        cases h
      · rintro ⟨hall, -⟩
        exact absurd hlong (hall run hmem)
  · rcases parse_outcome t with ⟨hall, hread⟩ | ⟨run, hmem, hlong, hread⟩
    · rw [hread]
      constructor
      · rintro ⟨e, he⟩
        cases he
      · rintro ⟨run, hmem, hlong⟩
        exact absurd hlong (hall run hmem)
    · constructor
      · intro _
        exact ⟨run, hmem, hlong⟩
      · intro _
        exact ⟨_, hread⟩
  · rw [parse_eq_mapM_runs, parse_eq_mapM_runs, Text.runs_bracketsAsDots]
  · intro d t' path path' hd h h'
    rw [parse_append hd, h, h']
    rfl

/-- Brackets that are nested, empty or never closed, around a dot and before leading zeros. -/
theorem parse_splits_stray_brackets :
    Text.runs "[1.2][[03]]x[" = ["1", "2", "03", "x"] ∧
      parse "[1.2][[03]]x[" = .ok [.index 1, .index 2, .index 3, .key "x"] ∧
      Text.bracketsAsDots "[1.2][[03]]x[" = ".1.2...03..x." ∧
      parse ".1.2...03..x." = parse "[1.2][[03]]x[" ∧
      parse "[1.2][[03]]x[]y[a" =
        .ok [.index 1, .index 2, .index 3, .key "x", .key "y", .key "a"] := by
  have hfirst : parse "[1.2][[03]]x[" = .ok [.index 1, .index 2, .index 3, .key "x"] := by cbv
  have hsecond : parse "y[a" = .ok [.key "y", .key "a"] := by cbv
  obtain ⟨-, -, hdots, happend⟩ := parse_splits "[1.2][[03]]x["
  exact ⟨by cbv, hfirst, by cbv, hdots, happend (.char ']') "y[a" _ _ rfl hfirst hsecond⟩

end Path

end PathStore
