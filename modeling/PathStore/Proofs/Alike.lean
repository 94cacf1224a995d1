import PathStore.Proofs.Operations
import PathStore.Proofs.Written

/-!
# Lists read as mappings

A list can be read as the mapping from `0`, `1`, … to its items, and an entry that holds nothing as
one that is not there.  Contents that are equal when they are read so are alike (`Alike`); the order
of entries means nothing.  What is alike cannot be told apart along written paths: reading, writing
and removing with the slot kept have equal outcomes and leave trees that are alike (`readFrom_alike`,
`writeFrom_alike`, `remove_alike`), as long as no list grows past what it can.
-/

namespace PathStore

/-- Whether a key is a name. -/
def MapKey.isName : MapKey → Bool
  | .atom (.text _) => true
  | _ => false

/-- Storing under a name does not touch the entries under keys that are no names. -/
theorem Entries.filter_insert_text {α : Type} (s : Text) (v : α) (es : Entries α) :
    (es.insert (.text s) v).filter (fun e => !e.1.isName) = es.filter fun e => !e.1.isName := by
  induction es with
  | nil => rfl
  | cons e es ih =>
    rw [insert]
    split
    · next hs =>
      rw [MapKey.same_text_iff] at hs
      simp [hs, MapKey.isName]
    · rw [List.filter_cons, List.filter_cons, ih]

namespace Data

/-! ## Definitions -/

/-- The entries that a container reads as: the items of a list stand under their positions. -/
def entries : Data → Entries Data
  | mapping _ es => es
  | list xs => Entries.numbered 0 xs
  | _ => []

/-- The kind of mapping that a container reads as. -/
def mappingKind : Data → MappingKind
  | mapping kind _ => kind
  | _ => .plain

/-- What stands under a name in a container. -/
def entry (t : Data) (name : Text) : Data :=
  (t.entries.find? (.text name)).getD nothing

/-- The entries of a container under keys that are no names. -/
def others (t : Data) : Entries Data :=
  t.entries.filter fun e => !e.1.isName

/-- The contents at a place of a list; past its end there is nothing. -/
def at? (xs : List Data) (i : Nat) : Data :=
  xs[i]?.getD nothing

/-- Contents that are equal when lists are read as mappings and entries that hold nothing as ones
that are not there. -/
inductive Alike : Data → Data → Prop
  | leaf (a : Atom) : Alike (leaf a) (leaf a)
  | set (ks : List MapKey) : Alike (set ks) (set ks)
  | tuple {xs ys : List Data} (length : xs.length = ys.length)
      (items : ∀ i, Alike (at? xs i) (at? ys i)) : Alike (tuple xs) (tuple ys)
  | container {t t' : Data} (isContainer : t.isContainer = true)
      (isContainer' : t'.isContainer = true) (kind : t.mappingKind = t'.mappingKind)
      (named : ∀ name, Alike (t.entry name) (t'.entry name))
      (keys : t.others.map Prod.fst = t'.others.map Prod.fst)
      (others : ∀ i, Alike (at? (t.others.map Prod.snd) i) (at? (t'.others.map Prod.snd) i)) :
      Alike t t'

/-- Whether a container can hold something in the slot of a segment. -/
def canHold : Data → Segment → Bool
  | mapping _ _, _ => true
  | list _, .index _ => true
  | _, _ => false

def isMapping : Data → Bool
  | mapping _ _ => true
  | _ => false

end Data

/-- Outcomes that are the same fault, or results that are related. -/
inductive Agree {α β : Type} (R : α → β → Prop) : Except Fault α → Except Fault β → Prop
  | ok {a : α} {b : β} (related : R a b) : Agree R (.ok a) (.ok b)
  | error (fault : Fault) : Agree R (.error fault) (.error fault)

theorem Agree.imp {α β : Type} {R R' : α → β → Prop} {e : Except Fault α} {e' : Except Fault β}
    (h : Agree R e e') (himp : ∀ a b, e = .ok a → R a b → R' a b) : Agree R' e e' := by
  cases h with
  | ok related => exact .ok (himp _ _ rfl related)
  | error fault => exact .error fault

theorem Agree.eq_error {α β : Type} {R : α → β → Prop} {e : Except Fault α} {e' : Except Fault β}
    {fault : Fault} (h : Agree R e e') (he : e = .error fault) : e' = .error fault := by
  cases h with
  | ok related => cases he
  | error fault' =>
    cases he
    rfl

/-- A list was to grow by more items than can be counted or kept. -/
def Overflows {α : Type} (e : Except Fault α) : Prop :=
  e = .error .lengthOverflow ∨ e = .error .outOfMemory

theorem not_overflows {α : Type} {e : Except Fault α} {a : α} (h : e = .ok a) : ¬ Overflows e := by
  rintro (h' | h') <;> cases h.symm.trans h'

theorem Overflows.map {α β : Type} {e : Except Fault α} (h : Overflows e) (f : α → β) :
    Overflows (e.map f) := by
  rcases h with rfl | rfl
  · exact Or.inl rfl
  · exact Or.inr rfl

/-- A position counted from the start can be assigned to, unless the list would grow too far. -/
theorem assignAt_of_nonneg {α : Type} {fill new : α} {xs : List α} {p : Int} (hp : 0 ≤ p) :
    (∃ ys, assignAt fill xs p new = .ok ys) ∨ Overflows (assignAt fill xs p new) := by
  unfold assignAt
  split
  · next hlt =>
    rw [offset?_of_nonneg hp hlt]
    exact Or.inl ⟨_, rfl⟩
  · split
    · exact Or.inr (Or.inl rfl)
    · split
      · exact Or.inr (Or.inr rfl)
      · exact Or.inl ⟨_, rfl⟩

namespace Data

variable {t t' u u' x x' slot slot' new new' : Data} {seg next : Segment} {name : Text}
  {path before here : Path}

/-! ## Alike contents -/

theorem Alike.isContainer_eq (h : Alike t t') : t.isContainer = t'.isContainer := by
  cases h with
  | container h h' => rw [h, h']
  | _ => rfl

theorem isNone_of_isContainer (h : t.isContainer = true) : t.isNone = false := by
  cases t <;> first | rfl | cases h

theorem Alike.isNone_eq (h : Alike t t') : t.isNone = t'.isNone := by
  cases h with
  | container h h' => rw [isNone_of_isContainer h, isNone_of_isContainer h']
  | _ => rfl

theorem sizeOf_lt_of_mem_entries (h : x ∈ t.entries.map Prod.snd) : sizeOf x < sizeOf t := by
  cases t with
  | mapping kind es =>
    rw [entries] at h
    obtain ⟨e, he, rfl⟩ := List.mem_map.1 h
    have hlt := List.sizeOf_lt_of_mem he
    have hpair : sizeOf e = 1 + sizeOf e.1 + sizeOf e.2 := rfl
    simp only [mapping.sizeOf_spec]
    omega
  | list xs =>
    rw [entries, Entries.numbered_values] at h
    have hlt := List.sizeOf_lt_of_mem h
    simp only [list.sizeOf_spec]
    omega
  | _ => simp [entries] at h

theorem at?_eq_or_mem (xs : List Data) (i : Nat) : at? xs i = nothing ∨ at? xs i ∈ xs := by
  unfold at?
  cases hx : xs[i]? with
  | none => exact Or.inl rfl
  | some x => exact Or.inr (List.mem_of_getElem? hx)

/-- Contents are alike to themselves. -/
theorem Alike.refl (t : Data) : Alike t t := by
  induction hn : sizeOf t using Nat.strong_induction_on generalizing t with
  | _ n ih =>
    subst hn
    have below : ∀ x, x = nothing ∨ sizeOf x < sizeOf t → Alike x x := by
      rintro x (rfl | hlt)
      · exact .leaf .none
      · exact ih _ hlt x rfl
    by_cases hk : t.isContainer = true
    · refine .container hk hk rfl (fun name => below _ ?_) rfl fun i => below _ ?_
      · unfold entry
        cases hf : t.entries.find? (.text name) with
        | none => exact Or.inl rfl
        | some x => exact Or.inr (sizeOf_lt_of_mem_entries (Entries.mem_of_find? hf))
      · refine (at?_eq_or_mem _ i).imp_right fun hmem => sizeOf_lt_of_mem_entries ?_
        exact (List.filter_sublist.map Prod.snd).subset hmem
    · cases t with
      | leaf a => exact .leaf a
      | set ks => exact .set ks
      | tuple xs =>
        refine .tuple rfl fun i => below _ ((at?_eq_or_mem xs i).imp_right fun hmem => ?_)
        have hlt := List.sizeOf_lt_of_mem hmem
        simp only [tuple.sizeOf_spec]
        omega
      | _ => exact absurd rfl hk

theorem Alike.entry (h : Alike t t') (name : Text) : Alike (t.entry name) (t'.entry name) := by
  cases h with
  | container _ _ _ named => exact named name
  | _ => exact .leaf .none

/-! ## Slots read as entries -/

theorem canHold_isContainer (h : t.canHold seg = true) : t.isContainer = true := by
  cases t <;> first | rfl | cases h

theorem canHold_of_isMapping (h : t.isMapping = true) (seg : Segment) : t.canHold seg = true := by
  cases t <;> first | rfl | cases h

/-- The items of a list stand under their positions. -/
theorem entry_list {p : Int} (hp : 0 ≤ p) (xs : List Data) :
    itemAt nothing xs p = .ok ((list xs).entry (Text.decimal p)) := by
  obtain ⟨n, rfl⟩ := Int.eq_ofNat_of_zero_le hp
  simp only [entry, entries, itemAt_of_nonneg hp, Entries.find?_numbered_decimal, Nat.zero_le,
    if_true, Nat.sub_zero, Int.toNat_natCast]

/-- A written segment looks up the entry under its name. -/
theorem lookup_written (hw : seg.IsWritten) (t : Data) :
    t.lookup seg = .ok (t.entry seg.spelling) := by
  cases t with
  | mapping kind es => exact lookup_mapping hw.isWritable kind es
  | list xs =>
    cases seg with
    | key k =>
      simp only [lookup, entry, entries, Segment.spelling, Entries.find?_numbered_of_ne hw.ne_decimal,
        Option.getD_none]
    | index p => exact entry_list hw.1 xs
  | _ => rfl

/-- `u` is the container `t` with `x` under a name. -/
structure Sets (t u : Data) (name : Text) (x : Data) : Prop where
  isContainer : u.isContainer = true
  kind : u.mappingKind = t.mappingKind
  entry : ∀ name', u.entry name' = if name = name' then x else t.entry name'
  others : u.others = t.others

theorem others_list (xs : List Data) : (list xs).others = [] := by
  rw [others, entries, List.filter_eq_nil_iff]
  intro e he
  obtain ⟨n, hn⟩ := Entries.numbered_keys (List.mem_map_of_mem (f := Prod.fst) he)
  simp [hn, MapKey.isName]

/-- Assigning to the slot of a written segment sets the entry under its name. -/
theorem assign_sets (hw : seg.IsWritten) (h : t.assign seg x = .ok u) :
    Sets t u seg.spelling x := by
  cases t with
  | mapping kind es =>
    obtain ⟨-, rfl⟩ := Segment.map_name_eq_ok h
    refine ⟨rfl, rfl, fun name' => ?_, Entries.filter_insert_text _ _ _⟩
    simp only [entry, entries, Entries.find?_insert_text]
    split <;> rfl
  | list xs =>
    cases seg with
    | key k => cases h
    | index p =>
      simp only [assign] at h
      cases ha : assignAt nothing xs p x with
      | error fault => simp [ha, Except.map] at h
      | ok ys =>
        simp only [ha, Except.map, Except.ok.injEq] at h
        subst h
        refine ⟨rfl, rfl, fun name' => ?_, by rw [others_list, others_list]⟩
        by_cases hname : ∃ n : Nat, name' = Text.decimal n
        · obtain ⟨n, rfl⟩ := hname
          obtain ⟨m, rfl⟩ := Int.eq_ofNat_of_zero_le hw.1
          have hys := entry_list (Int.natCast_nonneg n) ys
          change _ = if Text.decimal m = Text.decimal n then x else _
          by_cases heq : m = n
          · subst heq
            rw [if_pos rfl]
            exact Except.ok.inj (hys.symm.trans (itemAt_assignAt_self ha))
          · rw [if_neg fun h => heq (Text.decimal_natCast_inj.1 h)]
            have hxs := entry_list (Int.natCast_nonneg n) xs
            have hkeep := itemAt_assignAt_of_ne hw.1 (Int.natCast_nonneg n) (by omega) ha
            exact Except.ok.inj (hys.symm.trans (hkeep.trans hxs))
        · have hne : ∀ n : Nat, name' ≠ Text.decimal n := fun n heq => hname ⟨n, heq⟩
          rw [if_neg]
          · simp only [entry, entries, Entries.find?_numbered_of_ne hne]
          · obtain ⟨n, rfl⟩ := Int.eq_ofNat_of_zero_le hw.1
            exact fun heq => hne n heq.symm
  | _ => cases h

/-- Containers that have the same entries under names, up to being alike, are alike when all the rest
comes from alike contents. -/
theorem Alike.of_entry (h : Alike t t') (hu : u.isContainer = true) (hu' : u'.isContainer = true)
    (kind : u.mappingKind = t.mappingKind) (kind' : u'.mappingKind = t'.mappingKind)
    (others : u.others = t.others) (others' : u'.others = t'.others)
    (entry : ∀ name, Alike (u.entry name) (u'.entry name)) : Alike u u' := by
  have hrest : u.mappingKind = u'.mappingKind ∧
      u.others.map Prod.fst = u'.others.map Prod.fst ∧
      ∀ i, Alike (at? (u.others.map Prod.snd) i) (at? (u'.others.map Prod.snd) i) := by
    rw [kind, kind', others, others']
    cases h with
    | container _ _ kind _ keys others => exact ⟨kind, keys, others⟩
    | _ => exact ⟨rfl, rfl, fun _ => .leaf .none⟩
  exact .container hu hu' hrest.1 entry hrest.2.1 hrest.2.2

/-- Alike contents are alike once alike contents are put under the same name. -/
theorem Alike.sets (h : Alike t t') (hu : Sets t u name x) (hu' : Sets t' u' name x')
    (hx : Alike x x') : Alike u u' := by
  refine h.of_entry hu.isContainer hu'.isContainer hu.kind hu'.kind hu.others hu'.others ?_
  intro name'
  rw [hu.entry, hu'.entry]
  split
  · exact hx
  · exact h.entry name'

/-! ## Reading -/

/-- Reading along a written path does not tell alike contents apart. -/
theorem readFrom_alike (h : Alike t t') {rest : Path} (hw : ∀ seg ∈ rest, seg.IsWritten)
    (path before : Path) :
    Agree Alike (t.readFrom path before rest) (t'.readFrom path before rest) := by
  induction rest generalizing t t' before with
  | nil => exact .ok h
  | cons seg rest ih =>
    obtain ⟨hseg, hw⟩ := List.forall_mem_cons.1 hw
    rw [readFrom, readFrom, h.isNone_eq, lookup_written hseg, lookup_written hseg]
    split
    · exact .error _
    · exact ih (h.entry seg.spelling) hw (before ++ [seg])

/-! ## Writing -/

/-- Entering a container keeps what it reads as, and gives one that can hold what comes next. -/
theorem enter_of_isContainer (hk : slot.isContainer = true) (path here : Path) (next : Segment) :
    ∃ c, enter path here next slot = .ok c ∧ c.canHold next = true ∧ c.entries = slot.entries ∧
      c.mappingKind = slot.mappingKind := by
  unfold enter
  rw [isNone_of_isContainer hk]
  cases slot with
  | mapping kind es => exact ⟨_, rfl, rfl, rfl, rfl⟩
  | list xs =>
    cases next with
    | key k => exact ⟨_, rfl, rfl, rfl, rfl⟩
    | index p => exact ⟨_, rfl, rfl, rfl, rfl⟩
  | _ => cases hk

theorem enter_of_isNone (hn : slot.isNone = true) (path here : Path) (next : Segment) :
    enter path here next slot = .ok (fresh next) := by
  unfold enter
  rw [if_pos hn]

theorem enter_of_blocked (hn : slot.isNone = false) (hk : slot.isContainer = false)
    (path here : Path) (next : Segment) :
    enter path here next slot = .error (.showing path (.rawValue path here next)) := by
  unfold enter
  rw [hn]
  cases slot <;> first | rfl | cases hk

theorem canHold_fresh (next : Segment) : (fresh next).canHold next = true := by
  cases next <;> rfl

/-- Entering does not tell alike contents apart. -/
theorem enter_alike (h : Alike slot slot') (path here : Path) (next : Segment) :
    Agree (fun c c' => Alike c c' ∧ c.canHold next = true ∧ c'.canHold next = true)
      (enter path here next slot) (enter path here next slot') := by
  cases hk : slot.isContainer with
  | true =>
    have hk' : slot'.isContainer = true := h.isContainer_eq ▸ hk
    obtain ⟨c, hc, hhold, hes, hkind⟩ := enter_of_isContainer hk path here next
    obtain ⟨c', hc', hhold', hes', hkind'⟩ := enter_of_isContainer hk' path here next
    rw [hc, hc']
    refine .ok ⟨?_, hhold, hhold'⟩
    cases h with
    | container _ _ kind named keys others =>
      refine .container (canHold_isContainer hhold) (canHold_isContainer hhold')
        (by rw [hkind, hkind', kind]) ?_ ?_ ?_
      · simpa only [entry, hes, hes'] using named
      · simpa only [Data.others, hes, hes'] using keys
      · simpa only [Data.others, hes, hes'] using others
    | _ => cases hk
  | false =>
    have hk' : slot'.isContainer = false := h.isContainer_eq ▸ hk
    cases hn : slot.isNone with
    | true =>
      rw [enter_of_isNone hn, enter_of_isNone (h.isNone_eq ▸ hn)]
      exact .ok ⟨.refl _, canHold_fresh next, canHold_fresh next⟩
    | false =>
      rw [enter_of_blocked hn hk, enter_of_blocked (h.isNone_eq ▸ hn) hk']
      exact .error _

/-- A slot that can hold something can be assigned to, unless a list would grow too far. -/
theorem assign_of_canHold (h : t.canHold seg = true) (hw : seg.IsWritten) (x : Data) :
    (∃ u, t.assign seg x = .ok u) ∨
      ∃ fault, t.assign seg x = .error fault ∧ Overflows (.error fault : Except Fault Unit) := by
  cases t with
  | mapping kind es => exact Or.inl ⟨_, assign_mapping hw.isWritable kind es x⟩
  | list xs =>
    cases seg with
    | key k => cases h
    | index p =>
      rw [assign]
      rcases @assignAt_of_nonneg _ nothing x xs p hw.1 with ⟨ys, hys⟩ | ho | ho
      · rw [hys]
        exact Or.inl ⟨list ys, rfl⟩
      · rw [ho]
        exact Or.inr ⟨_, rfl, Or.inl rfl⟩
      · rw [ho]
        exact Or.inr ⟨_, rfl, Or.inr rfl⟩
  | _ => cases h

/-- What is left of two trees after an update, and the outcomes, when no list grows too far. -/
def SameEffect (r r' : Data × Except Fault Unit) : Prop :=
  ¬ Overflows r.2 → ¬ Overflows r'.2 → Alike r.1 r'.1 ∧ r.2 = r'.2

theorem update_alike (h : Alike t t') (hhold : t.canHold seg = true)
    (hhold' : t'.canHold seg = true) (hw : seg.IsWritten) {below below' : Data × Except Fault Unit}
    (hb : SameEffect below below') : SameEffect (t.update seg below) (t'.update seg below') := by
  intro hno hno'
  unfold update at hno hno' ⊢
  rcases assign_of_canHold hhold hw below.1 with ⟨u, hu⟩ | ⟨fault, hf, ho⟩
  · rcases assign_of_canHold hhold' hw below'.1 with ⟨u', hu'⟩ | ⟨fault, hf, ho⟩
    · rw [hu] at hno ⊢
      rw [hu'] at hno' ⊢
      obtain ⟨hbelow, hout⟩ := hb hno hno'
      exact ⟨h.sets (assign_sets hw hu) (assign_sets hw hu') hbelow,
        hout⟩
    · rw [hf] at hno'
      exact absurd ho hno'
  · rw [hf] at hno
    exact absurd ho hno

/-- Writing alike contents along a written path does not tell alike contents apart. -/
theorem writeFrom_alike (h : Alike t t') (hnew : Alike new new') (hhold : t.canHold seg = true)
    (hhold' : t'.canHold seg = true) {rest : Path} (hw : ∀ x ∈ seg :: rest, x.IsWritten)
    (path before : Path) :
    SameEffect (t.writeFrom path before new (seg :: rest))
      (t'.writeFrom path before new' (seg :: rest)) := by
  induction rest generalizing t t' seg before with
  | nil => exact update_alike h hhold hhold' (hw seg List.mem_cons_self) fun _ _ => ⟨hnew, rfl⟩
  | cons next rest ih =>
    obtain ⟨hseg, hw⟩ := List.forall_mem_cons.1 hw
    rw [writeFrom, writeFrom, lookup_written hseg, lookup_written hseg]
    simp only
    have henter := enter_alike (h.entry seg.spelling) path (before ++ [seg]) next
    generalize enter path (before ++ [seg]) next (t.entry seg.spelling) = e at henter ⊢
    generalize enter path (before ++ [seg]) next (t'.entry seg.spelling) = e' at henter ⊢
    cases henter with
    | error fault => exact fun _ _ => ⟨h, rfl⟩
    | ok hchild =>
      obtain ⟨hchild, hc, hc'⟩ := hchild
      exact update_alike h hhold hhold' hseg (ih hchild hc hc' hw (before ++ [seg]))

/-! ## Removing -/

/-- Emptying an entry that holds nothing changes nothing. -/
theorem sets_nothing (hk : t.isContainer = true) (h : t.entry name = nothing) :
    Sets t t name nothing := by
  refine ⟨hk, rfl, fun name' => ?_, rfl⟩
  split
  · next heq => rw [← heq, h]
  · rfl

/-- Taking out of the slot of a written segment, with the slot kept, gives the entry under its name
and empties it. -/
theorem take_written (hk : t.isContainer = true) (hw : seg.IsWritten) :
    ∃ u, t.take true seg = .ok (u, t.entry seg.spelling) ∧ Sets t u seg.spelling nothing := by
  have hl := lookup_written hw t
  cases t with
  | mapping kind es =>
    have hassign := assign_sets hw (assign_mapping hw.isWritable kind es nothing)
    simp only [take_mapping hw.isWritable, Entries.take]
    cases hf : Entries.find? (.text seg.spelling) es with
    | none =>
      have hentry : (mapping kind es).entry seg.spelling = nothing := by simp [entry, entries, hf]
      exact ⟨_, by rw [hentry], sets_nothing rfl hentry⟩
    | some old => exact ⟨_, by simp [entry, entries, hf], hassign⟩
  | list xs =>
    cases seg with
    | key k =>
      have hentry := Except.ok.inj hl
      exact ⟨_, by rw [← hentry]; rfl, sets_nothing rfl hentry.symm⟩
    | index p =>
      rw [lookup, itemAt_of_nonneg hw.1] at hl
      have hentry := Except.ok.inj hl
      simp only [take, takeAt]
      split
      · next hle =>
        rw [List.getElem?_eq_none (by omega)] at hentry
        exact ⟨_, by rw [← hentry]; rfl, sets_nothing rfl hentry.symm⟩
      · next hlt =>
        have hlt : p < xs.length := by omega
        rw [offset?_of_nonneg hw.1 hlt]
        refine ⟨_, by rw [← hentry]; rfl, assign_sets hw ?_⟩
        simp [assign, assignAt, hlt, offset?_of_nonneg hw.1 hlt, Except.map]
  | _ => cases hk

theorem take_of_not_isContainer (hk : t.isContainer = false) (keep : Bool) (seg : Segment) :
    t.take keep seg = .ok (t, nothing) := by
  cases t <;> first | rfl | cases hk

/-- The slot of a container can be assigned to. -/
theorem assign_of_entry (hw : seg.IsWritten) (h : (t.entry seg.spelling).isContainer = true)
    (x : Data) : ∃ u, t.assign seg x = .ok u := by
  have hl := lookup_written hw t
  cases t with
  | mapping kind es => exact ⟨_, assign_mapping hw.isWritable kind es x⟩
  | list xs =>
    cases seg with
    | key k =>
      rw [← Except.ok.inj hl] at h
      cases h
    | index p =>
      rw [lookup] at hl
      obtain ⟨n, hlt, ho, -⟩ | ⟨-, heq⟩ := itemAt_eq_ok hl
      · exact ⟨list (xs.set n x), by simp [assign, assignAt, hlt, ho, Except.map]⟩
      · rw [heq] at h
        cases h
  | _ => cases h

/-- Removing along a written path, with the slot kept, does not tell alike contents apart. -/
theorem remove_alike (h : Alike t t') (hw : ∀ seg ∈ path, seg.IsWritten) :
    Agree (fun r r' => Alike r.1 r'.1 ∧ Alike r.2 r'.2) (t.remove true path)
      (t'.remove true path) := by
  induction path generalizing t t' with
  | nil => exact .ok ⟨h, .leaf .none⟩
  | cons seg rest ih =>
    obtain ⟨hseg, hrest⟩ := List.forall_mem_cons.1 hw
    cases rest with
    | nil =>
      rw [remove, remove]
      cases hk : t.isContainer with
      | true =>
        obtain ⟨u, htake, hu⟩ := take_written hk hseg
        obtain ⟨u', htake', hu'⟩ := take_written (h.isContainer_eq ▸ hk) hseg
        rw [htake, htake']
        exact .ok ⟨h.sets hu hu' (.leaf .none), h.entry seg.spelling⟩
      | false =>
        rw [take_of_not_isContainer hk, take_of_not_isContainer (h.isContainer_eq ▸ hk)]
        exact .ok ⟨h, .leaf .none⟩
    | cons next rest =>
      rw [remove, remove, lookup_written hseg, lookup_written hseg]
      simp only
      rw [← (h.entry seg.spelling).isContainer_eq]
      split
      · next hk =>
        have hk' := (h.entry seg.spelling).isContainer_eq ▸ hk
        have hbelow := ih (h.entry seg.spelling) hrest
        generalize remove true (t.entry seg.spelling) (next :: rest) = e at hbelow ⊢
        generalize remove true (t'.entry seg.spelling) (next :: rest) = e' at hbelow ⊢
        cases hbelow with
        | error fault => exact .error fault
        | @ok r r' hr =>
          obtain ⟨u, hu⟩ := assign_of_entry hseg hk r.1
          obtain ⟨u', hu'⟩ := assign_of_entry hseg hk' r'.1
          simp only [hu, hu']
          exact .ok ⟨h.sets (assign_sets hseg hu) (assign_sets hseg hu') hr.1, hr.2⟩
      · exact .ok ⟨h, .leaf .none⟩

/-! ## Mappings at the root -/

theorem assign_isMapping (hm : t.isMapping = true) (h : t.assign seg x = .ok u) :
    u.isMapping = true := by
  cases t with
  | mapping kind es =>
    obtain ⟨-, rfl⟩ := Segment.map_name_eq_ok h
    rfl
  | _ => cases hm

theorem update_isMapping (hm : t.isMapping = true) (seg : Segment)
    (below : Data × Except Fault Unit) : (t.update seg below).1.isMapping = true := by
  unfold update
  cases h : t.assign seg below.1 with
  | error fault => exact hm
  | ok u => exact assign_isMapping hm h

/-- A mapping stays one when something is written below it. -/
theorem write_isMapping (hm : t.isMapping = true) (path : Path) (new : Data) :
    (t.write path new).1.isMapping = true := by
  unfold write
  cases path with
  | nil => exact hm
  | cons seg rest =>
    cases rest with
    | nil => exact update_isMapping hm seg _
    | cons next rest =>
      rw [writeFrom]
      cases t.lookup seg with
      | error fault => exact hm
      | ok slot =>
        simp only
        cases enter (seg :: next :: rest) ([] ++ [seg]) next slot with
        | error fault => exact hm
        | ok child => exact update_isMapping hm seg _

/-- A mapping stays one when something is taken out of it. -/
theorem remove_isMapping (hm : t.isMapping = true) {keep : Bool} {old : Data}
    (h : t.remove keep path = .ok (u, old)) : u.isMapping = true := by
  cases path with
  | nil =>
    cases h
    exact hm
  | cons seg rest =>
    cases rest with
    | nil =>
      cases t with
      | mapping kind es =>
        obtain ⟨-, h⟩ := Segment.map_name_eq_ok h
        cases h
        rfl
      | _ => cases hm
    | cons next rest =>
      rw [remove] at h
      split at h
      · cases h
      · split at h
        · split at h
          · cases h
          · next below old' _ =>
            cases ha : t.assign seg below with
            | error fault => simp [ha, Except.map] at h
            | ok u' =>
              simp only [ha, Except.map, Except.ok.injEq, Prod.mk.injEq] at h
              obtain ⟨rfl, -⟩ := h
              exact assign_isMapping hm ha
        · cases h
          exact hm

end Data

/-! ## Operations -/

/-- Whether an operation leaves the slots of what it deletes. -/
def Op.keepsSlots : Op → Bool
  | .delete _ keep => keep.yes
  | _ => true

namespace Data

variable {t t' : Data}

/-- An operation does not tell alike mappings apart. -/
theorem perform_alike (h : Alike t t') (hm : t.isMapping = true) (hm' : t'.isMapping = true)
    {op : Op} (hk : op.keepsSlots = true) (hno : ¬ Overflows (t.perform op).2)
    (hno' : ¬ Overflows (t'.perform op).2) :
    Alike (t.perform op).1 (t'.perform op).1 ∧ Agree Alike (t.perform op).2 (t'.perform op).2 := by
  cases op with
  | get key =>
    simp only [perform]
    cases hpath : key.path with
    | error fault => exact ⟨h, .error fault⟩
    | ok path => exact ⟨h, readFrom_alike h (Atom.isWritten_of_path hpath) path []⟩
  | set key new =>
    simp only [perform, setAt] at hno hno' ⊢
    cases hpath : key.path with
    | error fault => exact ⟨h, .error fault⟩
    | ok path =>
      rw [hpath] at hno hno'
      cases path with
      | nil => exact ⟨h, .ok (.leaf .none)⟩
      | cons seg rest =>
        have hwrite := writeFrom_alike h (.refl new) (canHold_of_isMapping hm seg)
          (canHold_of_isMapping hm' seg) (Atom.isWritten_of_path hpath) (seg :: rest) []
        obtain ⟨htree, hout⟩ := hwrite (fun ho => hno (Overflows.map ho _))
          fun ho => hno' (Overflows.map ho _)
        refine ⟨htree, ?_⟩
        simp only [write, hout]
        cases (t'.writeFrom (seg :: rest) [] new (seg :: rest)).2 with
        | error fault => exact .error fault
        | ok u => exact .ok (.leaf .none)
  | delete key keep =>
    simp only [perform, deleteAt]
    cases Storage.usableKey? (.ofAtom key) with
    | none => exact ⟨h, .ok (.leaf .none)⟩
    | some trimmed =>
      simp only
      cases hpath : Path.read trimmed with
      | error fault => exact ⟨h, .error fault⟩
      | ok path =>
        have hrem := remove_alike h (Path.isWritten_of_read hpath)
        rw [show keep.yes = true from hk]
        simp only [Except.bind]
        generalize remove true t path = e at hrem ⊢
        generalize remove true t' path = e' at hrem ⊢
        cases hrem with
        | error fault => exact ⟨h, .error fault⟩
        | ok hr => exact ⟨hr.1, .ok hr.2⟩

theorem perform_isMapping (hm : t.isMapping = true) (op : Op) :
    (t.perform op).1.isMapping = true := by
  cases op with
  | get key => exact hm
  | set key new =>
    simp only [perform, setAt]
    cases key.path with
    | error fault => exact hm
    | ok path => exact write_isMapping hm path new
  | delete key keep =>
    simp only [perform, deleteAt]
    cases Storage.usableKey? (.ofAtom key) with
    | none => exact hm
    | some trimmed =>
      simp only
      cases hr : (Path.read trimmed).bind (t.remove keep.yes) with
      | error fault => exact hm
      | ok r =>
        cases hpath : Path.read trimmed with
        | error fault => simp [hpath, Except.bind] at hr
        | ok path =>
          rw [hpath] at hr
          exact remove_isMapping hm hr

/-- Operations one after the other do not tell alike mappings apart. -/
theorem performAll_alike (h : Alike t t') (hm : t.isMapping = true) (hm' : t'.isMapping = true)
    {ops : List Op} (hk : ∀ op ∈ ops, op.keepsSlots = true)
    (hno : ∀ e ∈ (t.performAll ops).2, ¬ Overflows e)
    (hno' : ∀ e ∈ (t'.performAll ops).2, ¬ Overflows e) :
    Alike (t.performAll ops).1 (t'.performAll ops).1 ∧
      List.Forall₂ (Agree Alike) (t.performAll ops).2 (t'.performAll ops).2 := by
  induction ops generalizing t t' with
  | nil => exact ⟨h, .nil⟩
  | cons op ops ih =>
    obtain ⟨hop, hk⟩ := List.forall_mem_cons.1 hk
    obtain ⟨hno₁, hno⟩ := List.forall_mem_cons.1 hno
    obtain ⟨hno₁', hno'⟩ := List.forall_mem_cons.1 hno'
    obtain ⟨htree, hout⟩ := perform_alike h hm hm' hop hno₁ hno₁'
    obtain ⟨hall, houts⟩ := ih htree (perform_isMapping hm op) (perform_isMapping hm' op) hk hno hno'
    exact ⟨hall, .cons hout houts⟩

end Data

end PathStore
