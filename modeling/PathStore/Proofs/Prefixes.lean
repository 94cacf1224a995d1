import Mathlib.Data.List.Basic

/-!
# What holds of every item of a list and those before it

A record grows at its end, and an item of it is judged by what was recorded before (`EachAfter`).
Two records put together are judged one after the other (`eachAfter_append`).
-/

namespace PathStore

variable {α : Type} {P Q : List α → α → Prop} {x : α} {xs ys : List α}

/-- Every item of a list has a property together with the items before it. -/
def EachAfter (P : List α → α → Prop) (xs : List α) : Prop :=
  ∀ pre x post, xs = pre ++ x :: post → P pre x

theorem eachAfter_nil : EachAfter P [] := by
  intro pre x post h
  exact absurd h.symm (List.append_ne_nil_of_right_ne_nil _ (List.cons_ne_nil _ _))

theorem eachAfter_cons :
    EachAfter P (x :: xs) ↔ P [] x ∧ EachAfter (fun pre => P (x :: pre)) xs := by
  constructor
  · intro h
    refine ⟨h [] x xs rfl, fun pre y post hxs => ?_⟩
    exact h (x :: pre) y post (by rw [hxs, List.cons_append])
  · rintro ⟨hx, hxs⟩ pre y post h
    cases pre with
    | nil =>
      obtain ⟨rfl, rfl⟩ := List.cons.inj h
      exact hx
    | cons z pre =>
      obtain ⟨rfl, rfl⟩ := List.cons.inj h
      exact hxs pre y post rfl

theorem eachAfter_singleton : EachAfter P [x] ↔ P [] x := by
  rw [eachAfter_cons]
  exact and_iff_left eachAfter_nil

theorem eachAfter_append :
    EachAfter P (xs ++ ys) ↔ EachAfter P xs ∧ EachAfter (fun pre => P (xs ++ pre)) ys := by
  induction xs generalizing P with
  | nil =>
    simp only [List.nil_append]
    exact ⟨fun h => ⟨eachAfter_nil, h⟩, fun h => h.2⟩
  | cons x xs ih => rw [List.cons_append, eachAfter_cons, eachAfter_cons, ih, and_assoc]; rfl

theorem eachAfter_concat : EachAfter P (xs ++ [x]) ↔ EachAfter P xs ∧ P xs x := by
  rw [eachAfter_append, eachAfter_singleton, List.append_nil]

theorem EachAfter.imp (h : EachAfter P xs) (hPQ : ∀ pre, ∀ x ∈ xs, P pre x → Q pre x) :
    EachAfter Q xs := by
  rintro pre x post rfl
  exact hPQ pre x (List.mem_append_right _ List.mem_cons_self) (h pre x post rfl)

end PathStore
