import PathStore.Proofs.Tree

/-!
# What assigning and taking do to a cell

Assigning to a slot inserts into a mapping, sets an item of a list or fills a list up
(`Cell.assign_eq_ok`); taking out of a slot leaves the cell as it is, or empties or closes the slot of
a container (`Cell.take_eq_ok`).  So the values of the changed cell are those it had, the one that is
put in, and nothing (`Cell.mem_assign_values`, `Cell.mem_take_values`), and its keys are those it had
and the name of the slot.
-/

namespace PathStore

/-! ## Entries -/

section
variable {α : Type} {k : MapKey} {v x : α} {es : Entries α}

theorem Entries.mem_insert_values (h : x ∈ (es.insert k v).map Prod.snd) :
    x = v ∨ x ∈ es.map Prod.snd := by
  induction es with
  | nil => simpa [insert] using h
  | cons e es ih =>
    rw [insert] at h
    split at h <;> simp only [List.map_cons, List.mem_cons] at h ⊢
    · tauto
    · rcases h with h | h
      · exact Or.inr (Or.inl h)
      · rcases ih h with h | h
        · exact Or.inl h
        · exact Or.inr (Or.inr h)

theorem Entries.mem_insert_keys {k' : MapKey} (h : k' ∈ (es.insert k v).map Prod.fst) :
    k' = k ∨ k' ∈ es.map Prod.fst := by
  induction es with
  | nil => simpa [insert] using h
  | cons e es ih =>
    rw [insert] at h
    split at h <;> simp only [List.map_cons, List.mem_cons] at h ⊢
    · tauto
    · rcases h with h | h
      · exact Or.inr (Or.inl h)
      · rcases ih h with h | h
        · exact Or.inl h
        · exact Or.inr (Or.inr h)

theorem Entries.self_mem_insert (k : MapKey) (v : α) (es : Entries α) :
    v ∈ (es.insert k v).map Prod.snd := by
  induction es with
  | nil => simp [insert]
  | cons e es ih =>
    rw [insert]
    split
    · exact List.mem_cons_self
    · exact List.mem_cons_of_mem _ ih

theorem Entries.find?_eq_some (h : es.find? k = some v) :
    ∃ es₁ k' es₂, es = es₁ ++ (k', v) :: es₂ ∧ k.same k' = true ∧
      ∀ e ∈ es₁, k.same e.1 = false := by
  induction es with
  | nil => cases h
  | cons e es ih =>
    rw [find?] at h
    split at h
    · next hk =>
      cases h
      exact ⟨[], e.1, es, rfl, hk, fun _ h => by cases h⟩
    · next hk =>
      obtain ⟨es₁, k', es₂, rfl, hk', hne⟩ := ih h
      exact ⟨e :: es₁, k', es₂, rfl, hk', List.forall_mem_cons.2 ⟨by simpa using hk, hne⟩⟩

theorem Entries.find?_eq_none (h : es.find? k = none) : ∀ e ∈ es, k.same e.1 = false := by
  induction es with
  | nil => exact fun _ h => by cases h
  | cons e es ih =>
    rw [find?] at h
    split at h
    · cases h
    · next hk => exact List.forall_mem_cons.2 ⟨by simpa using hk, ih h⟩

theorem Entries.insert_append_cons {k' : MapKey} {es₁ es₂ : Entries α}
    (hne : ∀ e ∈ es₁, k.same e.1 = false) (hk : k.same k' = true) :
    Entries.insert k x (es₁ ++ (k', v) :: es₂) = es₁ ++ (k', x) :: es₂ := by
  induction es₁ with
  | nil => simp [insert, hk]
  | cons e es₁ ih =>
    obtain ⟨he, hne⟩ := List.forall_mem_cons.1 hne
    simp [insert, he, ih hne]

theorem Entries.erase_append_cons {k' : MapKey} {es₁ es₂ : Entries α}
    (hne : ∀ e ∈ es₁, k.same e.1 = false) (hk : k.same k' = true) :
    Entries.erase k (es₁ ++ (k', v) :: es₂) = es₁ ++ es₂ := by
  induction es₁ with
  | nil => simp [erase, hk]
  | cons e es₁ ih =>
    obtain ⟨he, hne⟩ := List.forall_mem_cons.1 hne
    simp [erase, he, ih hne]

theorem Entries.insert_of_find?_eq_none (h : es.find? k = none) :
    es.insert k x = es ++ [(k, x)] := by
  have hne := find?_eq_none h
  clear h
  induction es with
  | nil => rfl
  | cons e es ih =>
    obtain ⟨he, hne⟩ := List.forall_mem_cons.1 hne
    simp [insert, he, ih hne]

/-- The last insertion under a text counts. -/
theorem Entries.insert_insert {t : Text} (v x : α) (es : Entries α) :
    (es.insert (.text t) v).insert (.text t) x = es.insert (.text t) x := by
  have hself : (MapKey.text t).same (.text t) = true := MapKey.same_text_iff.2 rfl
  cases hf : es.find? (.text t) with
  | none => rw [insert_of_find?_eq_none hf, insert_of_find?_eq_none hf,
      insert_append_cons (find?_eq_none hf) hself]
  | some w =>
    obtain ⟨es₁, k', es₂, rfl, hk, hne⟩ := find?_eq_some hf
    rw [insert_append_cons hne hk, insert_append_cons hne hk, insert_append_cons hne hk]

theorem Entries.erase_sublist (k : MapKey) (es : Entries α) : (es.erase k).Sublist es := by
  induction es with
  | nil => exact List.Sublist.refl _
  | cons e es ih =>
    rw [erase]
    split
    · exact List.sublist_cons_self e es
    · exact ih.cons_cons e

theorem Entries.numbered_values (start : Nat) (xs : List α) :
    (numbered start xs).map Prod.snd = xs := by
  induction xs generalizing start with
  | nil => rfl
  | cons x xs ih => simp [numbered, ih]

theorem Entries.numbered_keys {start : Nat} {xs : List α} (h : k ∈ (numbered start xs).map Prod.fst) :
    ∃ n : Nat, k = .text (Text.decimal n) := by
  induction xs generalizing start with
  | nil => simp [numbered] at h
  | cons x xs ih =>
    simp only [numbered, List.map_cons, List.mem_cons] at h
    rcases h with rfl | h
    · exact ⟨start, rfl⟩
    · exact ih h

end

/-! ## Lists -/

section
variable {α : Type} {fill new x old : α} {xs ys : List α} {p : Int} {keep : Bool}

/-- What assigning to a position does: it sets an item or fills the list up. -/
theorem assignAt_eq_ok (h : assignAt fill xs p new = .ok ys) :
    (∃ n, p < xs.length ∧ offset? xs.length p = some n ∧ ys = xs.set n new) ∨
      ((xs.length : Int) ≤ p ∧
        ys = xs ++ List.replicate (p.toNat - xs.length) fill ++ [new]) := by
  unfold assignAt at h
  split at h
  · next hlt =>
    cases ho : offset? xs.length p with
    | none => simp [ho] at h
    | some n =>
      simp only [ho, Except.ok.injEq] at h
      exact Or.inl ⟨n, hlt, rfl, h.symm⟩
  · next hge =>
    split at h
    · cases h
    · split at h
      · cases h
      · cases h
        exact Or.inr ⟨by omega, rfl⟩

/-- What taking an item out does: nothing past the end, and else it empties or closes the slot. -/
theorem takeAt_eq_ok (h : takeAt fill keep xs p = .ok (ys, old)) :
    (ys = xs ∧ old = fill) ∨
      ∃ n, offset? xs.length p = some n ∧ xs[n]? = some old ∧
        ys = if keep then xs.set n fill else xs.eraseIdx n := by
  unfold takeAt at h
  split at h
  · cases h
    exact Or.inl ⟨rfl, rfl⟩
  · cases ho : offset? xs.length p with
    | none => simp [ho] at h
    | some n =>
      simp only [ho, Except.ok.injEq, Prod.mk.injEq] at h
      obtain ⟨rfl, rfl⟩ := h
      refine Or.inr ⟨n, rfl, ?_, rfl⟩
      rw [List.getElem?_eq_getElem (offset?_lt ho)]
      rfl

/-- Where something is found at a position, that is the item at the place of the position. -/
theorem itemAt_eq_ok (h : itemAt fill xs p = .ok x) :
    (∃ n, p < xs.length ∧ offset? xs.length p = some n ∧ xs[n]? = some x) ∨
      ((xs.length : Int) ≤ p ∧ x = fill) := by
  unfold itemAt at h
  split at h
  · next hlt =>
    cases ho : offset? xs.length p with
    | none => simp [ho] at h
    | some n =>
      simp only [ho, Except.ok.injEq] at h
      rw [List.getElem?_eq_getElem (offset?_lt ho)] at h
      subst h
      exact Or.inl ⟨n, hlt, rfl, List.getElem?_eq_getElem (offset?_lt ho)⟩
  · next hge =>
    cases h
    exact Or.inr ⟨by omega, rfl⟩

theorem mem_assignAt (h : assignAt fill xs p new = .ok ys) (hx : x ∈ ys) :
    x ∈ xs ∨ x = new ∨ x = fill := by
  obtain ⟨n, -, -, rfl⟩ | ⟨-, rfl⟩ := assignAt_eq_ok h
  · rcases List.mem_or_eq_of_mem_set hx with hx | hx
    · exact Or.inl hx
    · exact Or.inr (Or.inl hx)
  · simp only [List.mem_append, List.mem_replicate, List.mem_singleton] at hx
    tauto

/-- Whether a position can be assigned to does not depend on what is assigned. -/
theorem assignAt_eq_error {fault : Fault} (h : assignAt fill xs p new = .error fault) (y : α) :
    assignAt fill xs p y = .error fault := by
  unfold assignAt at h ⊢
  split at h
  · next hlt =>
    rw [if_pos hlt]
    cases ho : offset? xs.length p with
    | none => simpa [ho] using h
    | some n => simp [ho] at h
  · next hge =>
    rw [if_neg hge]
    split at h
    · next hgrow => rw [if_pos hgrow, h]
    · next hgrow =>
      rw [if_neg hgrow]
      split at h
      · next hmem => rw [if_pos hmem, h]
      · cases h

/-- A position cannot be assigned to if it lies before the first item, or too far behind the last. -/
theorem fault_of_assignAt {fault : Fault} (h : assignAt fill xs p new = .error fault) :
    fault ∈ [.assignmentOutOfRange, .indexUnderflow, .lengthOverflow, .outOfMemory] := by
  unfold assignAt at h
  split at h
  · split at h
    · cases h
    · cases h
      unfold beforeFirst
      split <;> simp
  · split at h
    · cases h
      simp
    · split at h
      · cases h
        simp
      · cases h

/-- The last assignment to a position counts. -/
theorem assignAt_assignAt (h : assignAt fill xs p new = .ok ys) (y : α) :
    assignAt fill ys p y = assignAt fill xs p y := by
  obtain ⟨n, hlt, ho, rfl⟩ | ⟨hle, rfl⟩ := assignAt_eq_ok h
  · simp [assignAt, hlt, ho]
  · have hlen : ((xs ++ List.replicate (p.toNat - xs.length) fill ++ [new]).length : Int) =
        p + 1 := by
      simp only [List.length_append, List.length_replicate, List.length_singleton]
      omega
    unfold assignAt at h
    rw [if_neg (by omega)] at h
    split at h
    · cases h
    · next hgrow =>
      split at h
      · cases h
      · next hmem =>
        have hp : p.toNat = (xs ++ List.replicate (p.toNat - xs.length) fill).length := by
          simp only [List.length_append, List.length_replicate]
          omega
        rw [assignAt, if_pos (by omega), offset?_of_nonneg (by omega) (by omega)]
        rw [assignAt, if_neg (by omega), if_neg hgrow, if_neg hmem]
        simp only
        rw [List.set_append_right _ _ (by omega), ← hp, Nat.sub_self]
        rfl

/-- What was assigned to a position is found there. -/
theorem itemAt_assignAt_self (h : assignAt fill xs p new = .ok ys) : itemAt fill ys p = .ok new := by
  obtain ⟨n, hlt, ho, rfl⟩ | ⟨hle, rfl⟩ := assignAt_eq_ok h
  · simp [itemAt, hlt, ho, offset?_lt ho]
  · have hlen : ((xs ++ List.replicate (p.toNat - xs.length) fill ++ [new]).length : Int) =
        p + 1 := by
      simp only [List.length_append, List.length_replicate, List.length_singleton]
      omega
    rw [itemAt, if_pos (by omega), offset?_of_nonneg (by omega) (by omega)]
    simp only
    rw [List.getElem?_append_right (by simp; omega)]
    simp only [List.length_append, List.length_replicate]
    rw [show p.toNat - (xs.length + (p.toNat - xs.length)) = 0 by omega]
    rfl

theorem self_mem_assignAt (h : assignAt fill xs p new = .ok ys) : new ∈ ys := by
  obtain ⟨n, -, ho, rfl⟩ | ⟨-, rfl⟩ := assignAt_eq_ok h
  · exact List.mem_set (offset?_lt ho) new
  · simp

/-- Mapped lists that differ at one place become equal when that place is set. -/
theorem map_set_of_beside {β : Type} {f g : α → β} {n : Nat} (hn : n < xs.length)
    (h : ∀ x ∈ xs.take n ++ xs.drop (n + 1), f x = g x) :
    (xs.map f).set n (g xs[n]) = xs.map g := by
  have hmap := List.map_congr_left h
  rw [List.map_append, List.map_append] at hmap
  obtain ⟨hpre, hpost⟩ := List.append_inj hmap (by simp)
  rw [List.set_eq_take_append_cons_drop, if_pos (by simpa using hn), ← List.map_take,
    ← List.map_drop, hpre, hpost, ← List.map_cons, ← List.map_append, List.getElem_cons_drop,
    List.take_append_drop]

end

/-! ## Cells -/

namespace Cell

variable {c c' : Cell} {seg : Segment} {new old w : Value} {keep : Bool} {k : MapKey}

/-- What assigning to a slot of a cell does: it inserts into a mapping or assigns to a list. -/
theorem assign_eq_ok (h : c.assign new seg = .ok c') :
    (∃ kind es, c = mapping kind es ∧ c' = mapping kind (es.insert (.text seg.spelling) new)) ∨
      ∃ xs p ys, c = list xs ∧ seg = .index p ∧ assignAt .none xs p new = .ok ys ∧
        c' = list ys := by
  cases c with
  | mapping kind es =>
    obtain ⟨-, rfl⟩ := Segment.map_name_eq_ok h
    exact Or.inl ⟨kind, es, rfl, rfl⟩
  | list xs =>
    cases seg with
    | key k => cases h
    | index p =>
      simp only [assign] at h
      cases ha : assignAt .none xs p new with
      | error fault => simp [ha, Except.map] at h
      | ok ys =>
        simp only [ha, Except.map, Except.ok.injEq] at h
        exact Or.inr ⟨xs, p, ys, rfl, rfl, ha, h.symm⟩
  | tuple xs => cases h
  | set ks => cases h

/-- What taking the value of a slot out of a cell does. -/
theorem take_eq_ok (h : c.take keep seg = .ok (c', old)) :
    (c' = c ∧ old = .none) ∨
      (∃ kind es, c = mapping kind es ∧ Entries.find? (.text seg.spelling) es = some old ∧
        c' = mapping kind (if keep then es.insert (.text seg.spelling) .none
          else es.erase (.text seg.spelling))) ∨
      ∃ xs p n, c = list xs ∧ seg = .index p ∧ offset? xs.length p = some n ∧
        xs[n]? = some old ∧ c' = list (if keep then xs.set n .none else xs.eraseIdx n) := by
  cases c with
  | mapping kind es =>
    obtain ⟨-, h⟩ := Segment.map_name_eq_ok h
    cases hf : Entries.find? (.text seg.spelling) es with
    | none =>
      simp only [Entries.take, hf, Prod.mk.injEq] at h
      exact Or.inl ⟨h.1.symm, h.2.symm⟩
    | some v =>
      simp only [Entries.take, hf, Prod.mk.injEq] at h
      obtain ⟨rfl, rfl⟩ := h
      exact Or.inr (Or.inl ⟨kind, es, rfl, hf, rfl⟩)
  | list xs =>
    cases seg with
    | key k =>
      cases h
      exact Or.inl ⟨rfl, rfl⟩
    | index p =>
      simp only [take] at h
      cases ha : takeAt .none keep xs p with
      | error fault => simp [ha, Except.map] at h
      | ok r =>
        obtain ⟨ys, o⟩ := r
        simp only [ha, Except.map, Except.ok.injEq, Prod.mk.injEq] at h
        obtain ⟨rfl, rfl⟩ := h
        obtain ⟨rfl, rfl⟩ | ⟨n, ho, hn, rfl⟩ := takeAt_eq_ok ha
        · exact Or.inl ⟨rfl, rfl⟩
        · exact Or.inr (Or.inr ⟨xs, p, n, rfl, rfl, ho, hn, rfl⟩)
  | tuple xs =>
    cases h
    exact Or.inl ⟨rfl, rfl⟩
  | set ks =>
    cases h
    exact Or.inl ⟨rfl, rfl⟩

theorem assign_isContainer (h : c.assign new seg = .ok c') :
    c.isContainer = true ∧ c'.isContainer = true := by
  obtain ⟨kind, es, rfl, rfl⟩ | ⟨xs, p, ys, rfl, -, -, rfl⟩ := assign_eq_ok h <;> exact ⟨rfl, rfl⟩

theorem mem_assign_values (h : c.assign new seg = .ok c') (hw : w ∈ c'.values) :
    w ∈ c.values ∨ w = new ∨ w = .none := by
  obtain ⟨kind, es, rfl, rfl⟩ | ⟨xs, p, ys, rfl, -, ha, rfl⟩ := assign_eq_ok h
  · rcases Entries.mem_insert_values hw with hw | hw
    · exact Or.inr (Or.inl hw)
    · exact Or.inl hw
  · exact mem_assignAt ha hw

theorem self_mem_assign (h : c.assign new seg = .ok c') : new ∈ c'.values := by
  obtain ⟨kind, es, rfl, rfl⟩ | ⟨xs, p, ys, rfl, -, ha, rfl⟩ := assign_eq_ok h
  · exact Entries.self_mem_insert _ new es
  · exact self_mem_assignAt ha

theorem mem_assign_keys (h : c.assign new seg = .ok c') (hk : k ∈ c'.keys) :
    k ∈ c.keys ∨ k = .text seg.spelling := by
  obtain ⟨kind, es, rfl, rfl⟩ | ⟨xs, p, ys, rfl, -, -, rfl⟩ := assign_eq_ok h
  · exact (Entries.mem_insert_keys hk).symm
  · cases hk

theorem lookup_of_assign (h : c.assign new seg = .ok c') : ∃ slot, c.lookup seg = .ok slot := by
  obtain ⟨kind, es, rfl, rfl⟩ | ⟨xs, p, ys, rfl, rfl, ha, rfl⟩ := assign_eq_ok h
  · obtain ⟨hw, -⟩ := Segment.map_name_eq_ok h
    exact ⟨_, lookup_mapping hw kind es⟩
  · obtain ⟨n, hlt, ho, rfl⟩ | ⟨hle, rfl⟩ := assignAt_eq_ok ha
    · simp [lookup, itemAt, hlt, ho]
    · exact ⟨.none, by rw [lookup, itemAt, if_neg (by omega)]⟩

/-- Taking a value out leaves the cell as it is or changes a container. -/
theorem take_isContainer (h : c.take keep seg = .ok (c', old)) :
    c' = c ∨ c.isContainer = true ∧ c'.isContainer = true := by
  obtain ⟨rfl, -⟩ | ⟨kind, es, rfl, -, rfl⟩ | ⟨xs, p, n, rfl, -, -, -, rfl⟩ := take_eq_ok h
  · exact Or.inl rfl
  · exact Or.inr ⟨rfl, rfl⟩
  · exact Or.inr ⟨rfl, rfl⟩

theorem mem_take_values (h : c.take keep seg = .ok (c', old)) (hw : w ∈ c'.values) :
    w ∈ c.values ∨ w = .none := by
  obtain ⟨rfl, -⟩ | ⟨kind, es, rfl, -, rfl⟩ | ⟨xs, p, n, rfl, -, -, -, rfl⟩ := take_eq_ok h
  · exact Or.inl hw
  · cases keep with
    | false => exact Or.inl (((Entries.erase_sublist _ es).map _).subset hw)
    | true => exact (Entries.mem_insert_values hw).symm
  · cases keep with
    | false => exact Or.inl ((List.eraseIdx_sublist xs n).subset hw)
    | true => exact List.mem_or_eq_of_mem_set hw

theorem mem_take_keys (h : c.take keep seg = .ok (c', old)) (hk : k ∈ c'.keys) :
    k ∈ c.keys ∨ k = .text seg.spelling := by
  obtain ⟨rfl, -⟩ | ⟨kind, es, rfl, -, rfl⟩ | ⟨xs, p, n, rfl, -, -, -, rfl⟩ := take_eq_ok h
  · exact Or.inl hk
  · cases keep with
    | false => exact Or.inl (((Entries.erase_sublist _ es).map _).subset hk)
    | true => exact (Entries.mem_insert_keys hk).symm
  · cases hk

theorem take_old_mem (h : c.take keep seg = .ok (c', old)) : old = .none ∨ old ∈ c.values := by
  obtain ⟨-, rfl⟩ | ⟨kind, es, rfl, hf, -⟩ | ⟨xs, p, n, rfl, -, -, hn, -⟩ := take_eq_ok h
  · exact Or.inl rfl
  · exact Or.inr (Entries.mem_of_find? hf)
  · exact Or.inr (List.mem_of_getElem? hn)

/-! ### The place of a slot -/

variable {slot : Value}

/-- Assigning replaces the value of the slot where there is one, and else adds a value at the
end. -/
theorem assign_values (h : c.assign new seg = .ok c') (hl : c.lookup seg = .ok slot) :
    ∃ pre post, c'.values = pre ++ new :: post ∧ (c.values = pre ++ slot :: post ∨
      slot = .none ∧ post = [] ∧ ∃ n, pre = c.values ++ List.replicate n .none) := by
  obtain ⟨kind, es, rfl, rfl⟩ | ⟨xs, p, ys, rfl, rfl, ha, rfl⟩ := assign_eq_ok h
  · obtain ⟨-, hl⟩ := Segment.map_name_eq_ok hl
    cases hf : Entries.find? (.text seg.spelling) es with
    | none =>
      simp only [hf, Option.getD_none] at hl
      refine ⟨es.map Prod.snd, [], ?_, Or.inr ⟨hl.symm, rfl, 0, by simp [values]⟩⟩
      rw [values, Entries.insert_of_find?_eq_none hf, List.map_append]
      rfl
    | some v =>
      simp only [hf, Option.getD_some] at hl
      subst hl
      obtain ⟨es₁, k', es₂, rfl, hk, hne⟩ := Entries.find?_eq_some hf
      refine ⟨es₁.map Prod.snd, es₂.map Prod.snd, ?_, Or.inl ?_⟩
      · rw [values, Entries.insert_append_cons hne hk, List.map_append]
        rfl
      · rw [values, List.map_append]
        rfl
  · obtain ⟨n, hlt, ho, rfl⟩ | ⟨hle, rfl⟩ := assignAt_eq_ok ha
    · obtain ⟨n', -, ho', hx⟩ | ⟨hle, -⟩ := itemAt_eq_ok hl
      · rw [ho] at ho'
        cases ho'
        obtain ⟨hn, rfl⟩ := List.getElem?_eq_some_iff.1 hx
        refine ⟨xs.take n, xs.drop (n + 1), ?_, Or.inl ?_⟩
        · rw [values, List.set_eq_take_append_cons_drop, if_pos hn]
        · rw [values, List.getElem_cons_drop, List.take_append_drop]
      · omega
    · obtain ⟨n, hlt, -⟩ | ⟨-, rfl⟩ := itemAt_eq_ok hl
      · omega
      · exact ⟨_, [], rfl, Or.inr ⟨rfl, rfl, _, rfl⟩⟩

/-- What was assigned to a slot is found there. -/
theorem lookup_assign_self (h : c.assign new seg = .ok c') : c'.lookup seg = .ok new := by
  obtain ⟨kind, es, rfl, rfl⟩ | ⟨xs, p, ys, rfl, rfl, ha, rfl⟩ := assign_eq_ok h
  · obtain ⟨hw, -⟩ := Segment.map_name_eq_ok h
    rw [lookup_mapping hw, Entries.find?_insert_text, if_pos rfl]
    rfl
  · exact itemAt_assignAt_self ha

/-- Assigning to a slot what is there changes nothing. -/
theorem assign_lookup (hl : c.lookup seg = .ok slot) (hn : slot.isNone = false) :
    c.assign slot seg = .ok c := by
  cases c with
  | mapping kind es =>
    obtain ⟨hw, hl⟩ := Segment.map_name_eq_ok hl
    cases hf : Entries.find? (.text seg.spelling) es with
    | none =>
      simp only [hf, Option.getD_none] at hl
      subst hl
      cases hn
    | some v =>
      simp only [hf, Option.getD_some] at hl
      subst hl
      obtain ⟨es₁, k', es₂, rfl, hk, hne⟩ := Entries.find?_eq_some hf
      rw [assign_mapping hw, Entries.insert_append_cons hne hk]
  | list xs =>
    cases seg with
    | key k =>
      cases hl
      cases hn
    | index p =>
      obtain ⟨n, hlt, ho, hx⟩ | ⟨hle, rfl⟩ := itemAt_eq_ok hl
      · obtain ⟨hlt', rfl⟩ := List.getElem?_eq_some_iff.1 hx
        simp [assign, assignAt, hlt, ho, Except.map]
      · cases hn
  | tuple xs =>
    cases hl
    cases hn
  | set ks =>
    cases hl
    cases hn

/-- Why a slot cannot be assigned to does not depend on what is assigned. -/
theorem assign_error_of_assign_error {fault : Fault} (h : c.assign old seg = .error fault)
    (new : Value) : c.assign new seg = .error fault := by
  -- with all values taken for nothing, both assign the same
  have hsame : (c.assign old seg).map (contents fun _ => Data.nothing) =
      (c.assign new seg).map (contents fun _ => Data.nothing) :=
    (contents_assign rfl c seg old).symm.trans (contents_assign rfl c seg new)
  rw [h] at hsame
  cases hn : c.assign new seg with
  | ok c' =>
    rw [hn] at hsame
    cases hsame
  | error fault' =>
    rw [hn] at hsame
    cases hsame
    rfl

theorem assign_isOk_of_assign (h : c.assign old seg = .ok c') (new : Value) :
    ∃ c'', c.assign new seg = .ok c'' := by
  cases hn : c.assign new seg with
  | ok c'' => exact ⟨c'', rfl⟩
  | error fault =>
    rw [assign_error_of_assign_error hn old] at h
    cases h

/-- The last assignment to a slot counts. -/
theorem assign_assign (h : c.assign old seg = .ok c') (new : Value) :
    c'.assign new seg = c.assign new seg := by
  obtain ⟨kind, es, rfl, rfl⟩ | ⟨xs, p, ys, rfl, rfl, ha, rfl⟩ := assign_eq_ok h
  · obtain ⟨hw, -⟩ := Segment.map_name_eq_ok h
    rw [assign_mapping hw, assign_mapping hw, Entries.insert_insert]
  · rw [assign, assign, assignAt_assignAt ha]

/-- Taking a value out empties its slot or closes it. -/
theorem take_values (h : c.take keep seg = .ok (c', old)) :
    (∃ pre post, c.values = pre ++ old :: post ∧ c'.values = pre ++ .none :: post) ∨
      c'.values.Sublist c.values := by
  obtain ⟨rfl, -⟩ | ⟨kind, es, rfl, hf, rfl⟩ | ⟨xs, p, n, rfl, -, -, hx, rfl⟩ := take_eq_ok h
  · exact Or.inr (List.Sublist.refl _)
  · cases keep with
    | false => exact Or.inr ((Entries.erase_sublist _ es).map _)
    | true =>
      obtain ⟨es₁, k', es₂, rfl, hk, hne⟩ := Entries.find?_eq_some hf
      refine Or.inl ⟨es₁.map Prod.snd, es₂.map Prod.snd, by simp [values], ?_⟩
      simp [values, Entries.insert_append_cons hne hk]
  · cases keep with
    | false => exact Or.inr (List.eraseIdx_sublist xs n)
    | true =>
      obtain ⟨hn, rfl⟩ := List.getElem?_eq_some_iff.1 hx
      refine Or.inl ⟨xs.take n, xs.drop (n + 1), by simp [values], ?_⟩
      simp only [values, if_true]
      rw [List.set_eq_take_append_cons_drop, if_pos hn]

/-- Contents that differ in one slot only become equal when that slot is assigned to. -/
theorem contents_assign_slot (hl : c.lookup seg = .ok slot) (hn : slot.isNone = false) :
    ∃ pre post, c.values = pre ++ slot :: post ∧ ∀ f g : Value → Data,
      (∀ w ∈ pre ++ post, f w = g w) → (c.contents f).assign seg (g slot) = .ok (c.contents g) := by
  cases c with
  | mapping kind es =>
    obtain ⟨hw, hl⟩ := Segment.map_name_eq_ok hl
    cases hf : Entries.find? (.text seg.spelling) es with
    | none =>
      simp only [hf, Option.getD_none] at hl
      subst hl
      cases hn
    | some v =>
      simp only [hf, Option.getD_some] at hl
      subst hl
      obtain ⟨es₁, k', es₂, rfl, hk, hne⟩ := Entries.find?_eq_some hf
      refine ⟨es₁.map Prod.snd, es₂.map Prod.snd, by simp [values], fun f g hfg => ?_⟩
      have h₁ : es₁.map (fun e => (e.1, f e.2)) = es₁.map fun e => (e.1, g e.2) :=
        List.map_congr_left fun e he => by
          rw [hfg e.2 (List.mem_append_left _ (List.mem_map_of_mem he))]
      have h₂ : es₂.map (fun e => (e.1, f e.2)) = es₂.map fun e => (e.1, g e.2) :=
        List.map_congr_left fun e he => by
          rw [hfg e.2 (List.mem_append_right _ (List.mem_map_of_mem he))]
      simp only [contents, Data.assign_mapping hw, List.map_append, List.map_cons, h₁, h₂]
      have hne' : ∀ e ∈ es₁.map fun e => (e.1, g e.2), (MapKey.text seg.spelling).same e.1 = false :=
        List.forall_mem_map.2 hne
      rw [Entries.insert_append_cons hne' hk]
  | list xs =>
    cases seg with
    | key k =>
      cases hl
      cases hn
    | index p =>
      obtain ⟨n, hlt, ho, hx⟩ | ⟨hle, rfl⟩ := itemAt_eq_ok hl
      · obtain ⟨hlt', rfl⟩ := List.getElem?_eq_some_iff.1 hx
        refine ⟨xs.take n, xs.drop (n + 1), by simp [values], fun f g hfg => ?_⟩
        have hset := map_set_of_beside hlt' hfg
        simp [contents, Data.assign, assignAt, hlt, ho, Except.map, hset]
      · cases hn
  | tuple xs =>
    cases hl
    cases hn
  | set ks =>
    cases hl
    cases hn

end Cell

/-! ## Contents -/

namespace Data

variable {t t' a : Data} {seg : Segment} {fault : Fault}

/-- Whether a slot can be assigned to does not depend on what is assigned. -/
theorem assign_eq_error (h : t.assign seg a = .error fault) (b : Data) :
    t.assign seg b = .error fault := by
  cases t with
  | mapping kind es =>
    rw [assign] at h ⊢
    cases hn : seg.name with
    | ok name =>
      rw [hn] at h
      cases h
    | error fault =>
      rw [hn] at h
      exact h
  | list xs =>
    cases seg with
    | key k => exact h
    | index p =>
      simp only [assign] at h ⊢
      cases ha : assignAt nothing xs p a with
      | error fault =>
        rw [assignAt_eq_error ha b]
        simpa [ha] using h
      | ok ys => simp [ha, Except.map] at h
  | _ => exact h

/-- The last assignment to a slot counts. -/
theorem assign_assign (h : t.assign seg a = .ok t') (b : Data) :
    t'.assign seg b = t.assign seg b := by
  cases t with
  | mapping kind es =>
    obtain ⟨hw, rfl⟩ := Segment.map_name_eq_ok h
    rw [assign_mapping hw, assign_mapping hw, Entries.insert_insert]
  | list xs =>
    cases seg with
    | key k => cases h
    | index p =>
      simp only [assign] at h ⊢
      cases ha : assignAt nothing xs p a with
      | error fault => simp [ha, Except.map] at h
      | ok ys =>
        simp only [ha, Except.map, Except.ok.injEq] at h
        subst h
        simp only [assignAt_assignAt ha b]
  | _ => cases h

end Data

end PathStore
