import Mathlib
import PathStore.Proofs.Copies
import PathStore.Proofs.Positions

/-!
# Copies are faithful

A copy of finite data holds what the original holds, its mappings outside of tuples made plain, and
has nothing in common with it that can change.  However the original shares containers, the copy is
a tree outside of tuples: only one way leads down to each of its containers (`Separate.way_eq`).
Reading and copying commute: along every path the same fault comes from the copy as from the original,
or what a copy of the value read from the original holds (`clone_faithful`).
-/

namespace PathStore

namespace Store

variable {s s' : Store} {v w x y : Value} {path before rest : Path} {t : Text}

/-! ## Definitions -/

/-- The values in the slots of a container, in their order; what is no container has no slots. -/
def slots (s : Store) (v : Value) : List Value :=
  match s.cell? v with
  | some c => if c.isContainer then c.values else []
  | none => []

/-- What stands at the end of a way down from a value that goes through containers only.  A way is a
list of numbers of slots. -/
def standsAt (s : Store) (v : Value) : List Nat → Option Value
  | [] => some v
  | n :: way =>
    match (s.slots v)[n]? with
    | some x => s.standsAt x way
    | none => none

/-! ## Ways to a container -/

/-- What has slots is a container. -/
theorem slots_cases (s : Store) (v : Value) :
    s.slots v = [] ∨ ∃ r c, v = .ref r ∧ s.get? r = some c ∧ c.isContainer = true ∧
      s.slots v = c.values := by
  cases v with
  | atom a copy => exact Or.inl rfl
  | ref r =>
    cases hc : s.get? r with
    | none => exact Or.inl (by simp only [slots, cell?, hc])
    | some c =>
      by_cases hk : c.isContainer = true
      · exact Or.inr ⟨r, c, rfl, hc, hk, by simp only [slots, cell?, hc, if_pos hk]⟩
      · exact Or.inl (by simp only [slots, cell?, hc, if_neg hk])

theorem holds_of_mem_slots (h : x ∈ s.slots v) : s.Holds v x := by
  rcases s.slots_cases v with hnil | ⟨r, c, rfl, hc, -, hslots⟩
  · rw [hnil] at h
    cases h
  · rw [hslots] at h
    exact (holds_ref_iff hc).2 h

/-- The slots of a separate container hold separate values, which have no container in common. -/
theorem Separate.slots (hs : s.Separate v) :
    (∀ x ∈ s.slots v, s.Separate x) ∧ (s.slots v).Pairwise (s.Apart Cell.isContainer) := by
  rcases s.slots_cases v with hnil | ⟨r, c, rfl, hc, hk, hslots⟩
  · rw [hnil]
    exact ⟨fun x hx => (List.not_mem_nil hx).elim, List.Pairwise.nil⟩
  · rw [hslots]
    exact hs.inv hc hk

theorem standsAt_cons {n : Nat} {way : List Nat} :
    s.standsAt v (n :: way) = some x ↔
      ∃ y, (s.slots v)[n]? = some y ∧ s.standsAt y way = some x := by
  rw [standsAt]
  cases (s.slots v)[n]? with
  | none => simp
  | some y => simp

theorem reaches_of_standsAt {way : List Nat} (h : s.standsAt v way = some x) : s.Reaches v x := by
  induction way generalizing v with
  | nil =>
    cases h
    exact Reaches.refl s _
  | cons n way ih =>
    obtain ⟨y, hy, h⟩ := standsAt_cons.1 h
    exact Relation.ReflTransGen.head (holds_of_mem_slots (List.mem_of_getElem? hy)) (ih h)

/-- A way of one slot or more from a finite value does not lead back to it. -/
theorem IsFinite.standsAt_ne (hf : s.IsFinite v) {n : Nat} {way : List Nat} :
    s.standsAt v (n :: way) ≠ some v := by
  intro h
  obtain ⟨y, hy, h⟩ := standsAt_cons.1 h
  have hholds := holds_of_mem_slots (List.mem_of_getElem? hy)
  exact hf.not_transGen (Relation.TransGen.head' hholds (reaches_of_standsAt h))

/-- Only one way leads down from a separate value to a container. -/
theorem Separate.way_eq (hs : s.Separate v) (hf : s.IsFinite v) {way way' : List Nat}
    (h : s.standsAt v way = some x) (h' : s.standsAt v way' = some x)
    (hk : s.isContainer x = true) : way = way' := by
  induction way generalizing v way' with
  | nil =>
    cases h
    cases way' with
    | nil => rfl
    | cons n' way' => exact absurd h' hf.standsAt_ne
  | cons n way ih =>
    cases way' with
    | nil =>
      cases h'
      exact absurd h hf.standsAt_ne
    | cons n' way' =>
      obtain ⟨y, hy, h⟩ := standsAt_cons.1 h
      obtain ⟨y', hy', h'⟩ := standsAt_cons.1 h'
      by_cases hn : n = n'
      · subst hn
        cases hy.symm.trans hy'
        have hmem := List.mem_of_getElem? hy
        have hfy := hf.of_reaches (Relation.ReflTransGen.single (holds_of_mem_slots hmem))
        rw [ih (hs.slots.1 y hmem) hfy h h']
      · -- what stands in different slots has no container in common
        obtain ⟨hlt, rfl⟩ := List.getElem?_eq_some_iff.1 hy
        obtain ⟨hlt', rfl⟩ := List.getElem?_eq_some_iff.1 hy'
        have hapart : s.Apart Cell.isContainer (s.slots v)[n] (s.slots v)[n'] := by
          have hpair := List.pairwise_iff_getElem.1 hs.slots.2
          rcases Nat.lt_or_gt_of_ne hn with hlow | hlow
          · exact hpair n n' hlt hlt' hlow
          · exact (hpair n' n hlt' hlt hlow).symm
        cases x with
        | atom a copy => cases hk
        | ref r =>
          obtain ⟨c, hc⟩ := get?_isSome (lt_size_of_isContainer hk)
          rw [isContainer_ref hc] at hk
          exact absurd (reaches_of_standsAt h')
            (hapart r c hc hk (reaches_of_standsAt h))

/-! ## Reading a copy -/

/-- What is read is nothing or reached from where the path starts. -/
theorem reaches_of_readFrom (h : s.readFrom path before v rest = .ok x) :
    x = .none ∨ s.Reaches v x := by
  induction rest generalizing v before with
  | nil =>
    cases h
    exact Or.inr (Reaches.refl s _)
  | cons seg rest ih =>
    obtain ⟨-, slot, hl, h⟩ := readFrom_cons_eq_ok h
    rcases ih h with hnone | hr
    · exact Or.inl hnone
    · rcases lookup_mem hl with rfl | hholds
      · exact Or.inl hr.eq_of_atom
      · exact Or.inr (Relation.ReflTransGen.head hholds hr)

/-- A text is read from a value that holds the plain form of a tree as it is from one that holds the
tree. -/
theorem readText_of_plain (hv : s.IsFinite v) (hw : s.IsFinite w)
    (h : s.tree w = (s.tree v).plain) (t : Text) :
    Agree (fun x y => s.tree y = (s.tree x).plain) (s.readText v t) (s.readText w t) := by
  unfold readText
  cases Path.read t with
  | error fault => exact .error fault
  | ok path =>
    show Agree _ (s.read v path) (s.read w path)
    have hread : (s.read w path).map s.tree = ((s.read v path).map s.tree).map Data.plain := by
      rw [← read_tree hw, h, Data.read_plain, read_tree hv]
    cases hx : s.read v path with
    | error fault =>
      rw [hx] at hread
      cases hy : s.read w path with
      | error fault' =>
        rw [hy] at hread
        cases hread
        exact .error fault
      | ok y =>
        rw [hy] at hread
        cases hread
    | ok x =>
      rw [hx] at hread
      cases hy : s.read w path with
      | error fault =>
        rw [hy] at hread
        cases hread
      | ok y =>
        rw [hy] at hread
        exact .ok (Except.ok.inj hread)

/-- Reading along the path of a text gives something or comes to a gap, unless the text has a run of
too many digits. -/
theorem readText_outcome (s : Store) (v : Value) (t : Text) :
    ((∀ run ∈ t.runs, ¬ run.IsOverlong) ∧ ((∃ x, s.readText v t = .ok x) ∨
        ∃ path gap, s.readText v t = .error (.keyNotFound path gap))) ∨
      ∃ run ∈ t.runs, run.IsOverlong ∧ s.readText v t = .error (.tooManyDigits run.length) := by
  unfold readText
  rcases Path.read_outcome t with ⟨hall, hread⟩ | ⟨run, hmem, hover, hread⟩
  · refine Or.inl ⟨hall, ?_⟩
    have hw := Path.isWritten_of_read hread
    rw [hread]
    exact (s.read_of_isWritten v hw).imp_right fun ⟨gap, h⟩ => ⟨_, gap, h⟩
  · rw [hread]
    exact Or.inr ⟨run, hmem, hover, rfl⟩

/-- What is read from finite data is finite data. -/
theorem isData_of_readText (hf : s.IsFinite v) (hd : s.IsData v) (h : s.readText v t = .ok x) :
    s.IsFinite x ∧ s.IsData x := by
  unfold readText at h
  cases hp : Path.read t with
  | error fault =>
    rw [hp] at h
    cases h
  | ok path =>
    rw [hp] at h
    rcases reaches_of_readFrom h with rfl | hr
    · exact ⟨.atom _ _, isData_atom rfl _⟩
    · exact ⟨hf.of_reaches hr, hd.of_reaches hr⟩

/-- Finite data have a copy.  Making it changes no cell that there was.  It holds what the original
holds, in the same order, with all mappings outside of tuples made plain; nothing that can change is
reached from both; and outside of tuples only one way leads to each container of the copy.  Reading
the copy along any text ends as reading the original does: with the same fault, or with a value that
holds what a copy of the one read from the original holds.  The faults are gaps, unless the text has a
run of too many digits. -/
theorem clone_faithful (hf : s.IsFinite v) (hd : s.IsData v) :
    ∃ s' w, s.clone v = .ok (s', w) ∧ Grows s s' ∧ s'.tree w = (s.tree v).plain ∧
      s'.Apart Cell.isMutable v w ∧
      (∀ way way' x, s'.standsAt w way = some x → s'.standsAt w way' = some x →
        s'.isContainer x = true → way = way') ∧
      ∀ t : Text,
        Agree (fun x y => ∃ s'' z, s'.clone x = .ok (s'', z) ∧ s'.tree y = s''.tree z)
          (s'.readText v t) (s'.readText w t) ∧
        ((∀ run ∈ t.runs, ¬ run.IsOverlong) → (∃ x, s'.readText v t = .ok x) ∨
          ∃ path gap, s'.readText v t = .error (.keyNotFound path gap)) ∧
        ((∃ run ∈ t.runs, run.IsOverlong) → ∃ run ∈ t.runs, run.IsOverlong ∧
          s'.readText v t = .error (.tooManyDigits run.length)) := by
  obtain ⟨⟨s', w⟩, hclone⟩ := clone_isOk hf hd
  obtain ⟨hgrows, hcloned⟩ := clone_spec hd hclone
  obtain ⟨hfw, htree, hfresh⟩ := hcloned.isCopy
  have hkeep : Keeps s s' v := hgrows.keeps hf.closed
  have hfv : s'.IsFinite v := hkeep.isFinite hf
  have hdv : s'.IsData v := hkeep.isData hd
  refine ⟨s', w, hclone, hgrows, htree, apart_mutable_of_fresh hgrows hf hfresh, ?_, ?_⟩
  · intro way way' x h h' hk
    exact hcloned.separate.way_eq hfw h h' hk
  · intro t
    have hplain : s'.tree w = (s'.tree v).plain := by rw [hkeep.tree hf, htree]
    refine ⟨?_, fun hall => ?_, ?_⟩
    · refine (readText_of_plain hfv hfw hplain t).imp fun x y hx hy => ?_
      obtain ⟨hfx, hdx⟩ := isData_of_readText hfv hdv hx
      obtain ⟨⟨s'', z⟩, hz⟩ := clone_isOk hfx hdx
      exact ⟨s'', z, hz, hy.trans (clone_spec hdx hz).2.isCopy.tree.symm⟩
    · exact ((s'.readText_outcome v t).resolve_right fun ⟨run, hmem, hover, _⟩ =>
        hall run hmem hover).2
    · rintro ⟨run, hmem, hover⟩
      exact (s'.readText_outcome v t).resolve_left fun h => h.1 run hmem hover

/-- One list stands under two names and in a mapping that stands in a tuple.  In the copy a list of its
own stands under each name, and the mapping in the tuple has kept its class. -/
theorem clone_faithful_shared :
    ∃ (s s' : Store) (v w x x' : Value), s.IsFinite v ∧ s.IsData v ∧
      s.lookup v (.key "a") = s.lookup v (.key "b") ∧
      s.tree v = .mapping .custom [(.text "a", .list [.leaf (.int 1)]),
        (.text "b", .list [.leaf (.int 1)]),
        (.text "c", .tuple [.mapping .custom [(.text "d", .list [.leaf (.int 1)])]])] ∧
      s.clone v = .ok (s', w) ∧
      (s.tree v).plain = .mapping .plain [(.text "a", .list [.leaf (.int 1)]),
        (.text "b", .list [.leaf (.int 1)]),
        (.text "c", .tuple [.mapping .custom [(.text "d", .list [.leaf (.int 1)])]])] ∧
      s'.tree w = (s.tree v).plain ∧ s'.Apart Cell.isMutable v w ∧
      s'.standsAt w [0] = some x ∧ s'.standsAt w [1] = some x' ∧ x ≠ x' ∧
      s'.readText w "b.d[0]" =
        .error (.keyNotFound [.key "b", .key "d", .index 0] [.key "b", .key "d"]) := by
  obtain ⟨s, hs⟩ : ∃ s : Store, s = { Store.empty with cells := #[.list [.ofAtom (.int 1)],
      .mapping .custom [(.text "d", .ref ⟨0⟩)], .tuple [.ref ⟨1⟩],
      .mapping .custom [(.text "a", .ref ⟨0⟩), (.text "b", .ref ⟨0⟩), (.text "c", .ref ⟨2⟩)]] } :=
    ⟨_, rfl⟩
  obtain ⟨copied, hcopied⟩ : ∃ copied : Store, copied = { s with cells := s.cells ++
      #[.list [.ofAtom (.int 1)], .list [.ofAtom (.int 1)], .list [.ofAtom (.int 1)],
        .mapping .custom [(.text "d", .ref ⟨6⟩)], .tuple [.ref ⟨7⟩],
        .mapping .plain [(.text "a", .ref ⟨4⟩), (.text "b", .ref ⟨5⟩), (.text "c", .ref ⟨8⟩)]] } :=
    ⟨_, rfl⟩
  have hf : s.IsFinite (.ref ⟨3⟩) := by
    subst hs
    decide +kernel
  have hd : s.IsData (.ref ⟨3⟩) := by
    rw [hf.isData_iff]
    subst hs
    cbv
  have hcopy : s.clone (.ref ⟨3⟩) = .ok (copied, .ref ⟨9⟩) := by
    subst hcopied hs
    cbv
  obtain ⟨s', w, hclone, -, htree, hapart, hway, hread⟩ := clone_faithful hf hd
  rw [hcopy] at hclone
  cases hclone
  have hfirst : copied.standsAt (.ref ⟨9⟩) [0] = some (.ref ⟨4⟩) := by
    subst hcopied hs
    cbv
  have hsecond : copied.standsAt (.ref ⟨9⟩) [1] = some (.ref ⟨5⟩) := by
    subst hcopied hs
    cbv
  have hlist : copied.isContainer (.ref ⟨4⟩) = true := by
    subst hcopied hs
    cbv
  have hgap : copied.readText (.ref ⟨3⟩) "b.d[0]" =
      .error (.keyNotFound [.key "b", .key "d", .index 0] [.key "b", .key "d"]) := by
    subst hcopied hs
    cbv
  refine ⟨s, copied, .ref ⟨3⟩, .ref ⟨9⟩, .ref ⟨4⟩, .ref ⟨5⟩, hf, hd, ?_, ?_, hcopy, ?_, htree, hapart,
    hfirst, hsecond, ?_, (hread _).1.eq_error hgap⟩
  · subst hs
    cbv
  · subst hs
    cbv
  · subst hs
    cbv
  · intro hsame
    rw [← hsame] at hsecond
    cases hway _ _ _ hfirst hsecond hlist

/-- From an empty mapping and from its copy nothing is read along a text of 4301 digits, nor is a gap
come to. -/
theorem readText_of_too_many_digits :
    ∃ (s s' : Store) (v w : Value) (t : Text), s.IsFinite v ∧ s.IsData v ∧ s.tree v = .empty ∧
      s.clone v = .ok (s', w) ∧ t = List.replicate 4301 (.char '1') ∧
      s'.readText v t = .error (.tooManyDigits 4301) ∧
      s'.readText w t = .error (.tooManyDigits 4301) := by
  have hover : Text.IsOverlong (List.replicate 4301 (.char '1')) := by
    constructor
    · refine List.all_eq_true.2 fun c hc => ?_
      rw [List.eq_of_mem_replicate hc]
      decide
    · rw [List.length_replicate]
      decide
  have hread : ∀ (s : Store) (v : Value), s.readText v (List.replicate 4301 (.char '1')) =
      .error (.tooManyDigits 4301) := by
    intro s v
    rw [readText, Path.read_of_isOverlong hover, List.length_replicate]
  have hf : (Store.empty.load .empty).1.IsFinite (.ref ⟨0⟩) := by decide +kernel
  have hd : (Store.empty.load .empty).1.IsData (.ref ⟨0⟩) := hf.isData_iff.2 (by decide +kernel)
  exact ⟨_, _, .ref ⟨0⟩, .ref ⟨1⟩, _, hf, hd, by cbv, rfl, rfl, hread _ _, hread _ _⟩

end Store

end PathStore
