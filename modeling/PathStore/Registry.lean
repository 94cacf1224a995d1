import PathStore.Store.Value

/-!
# Registries of services

A registry holds services under keys: ready ones, and factories, known by their numbers, that make
one when it is asked for.  Registering either kind under a key takes the other kind away from it
(`lookup_register`), so no key ever has both.
-/

namespace PathStore

structure Registry where
  ready : List (Text × Value)
  factories : List (Text × Nat)
  deriving Repr

namespace Registry

def empty : Registry := ⟨[], []⟩

instance : Inhabited Registry := ⟨empty⟩

/-- The pairs without the one under `key`. -/
def dropKey {α : Type} (key : Text) (pairs : List (Text × α)) : List (Text × α) :=
  pairs.filter fun p => p.1 ≠ key

/-- The pairs with `a` under `key`. -/
def setKey {α : Type} (key : Text) (a : α) (pairs : List (Text × α)) : List (Text × α) :=
  dropKey key pairs ++ [(key, a)]

def register (r : Registry) (key : Text) (service : Value) : Registry :=
  ⟨setKey key service r.ready, dropKey key r.factories⟩

def registerFactory (r : Registry) (key : Text) (factory : Nat) : Registry :=
  ⟨dropKey key r.ready, setKey key factory r.factories⟩

def unregister (r : Registry) (key : Text) : Registry :=
  ⟨dropKey key r.ready, dropKey key r.factories⟩

/-- Takes out a factory that is about to run. -/
def take (r : Registry) (key : Text) : Registry :=
  ⟨r.ready, dropKey key r.factories⟩

/-- Keeps what a factory gave. -/
def keep (r : Registry) (key : Text) (service : Value) : Registry :=
  ⟨setKey key service r.ready, r.factories⟩

/-- Whether there is a ready service or a factory under a key. -/
def contains (r : Registry) (key : Text) : Bool :=
  (r.ready.lookup key).isSome || (r.factories.lookup key).isSome

/-! ## Lemmas -/

theorem lookup_dropKey {α : Type} (key key' : Text) (pairs : List (Text × α)) :
    (dropKey key pairs).lookup key' = if key = key' then none else pairs.lookup key' := by
  induction pairs with
  | nil => simp [dropKey]
  | cons p pairs ih =>
    unfold dropKey at ih ⊢
    grind

theorem lookup_setKey {α : Type} (key key' : Text) (a : α) (pairs : List (Text × α)) :
    (setKey key a pairs).lookup key' = if key = key' then some a else pairs.lookup key' := by
  unfold setKey
  rw [List.lookup_append, lookup_dropKey]
  grind

theorem length_dropKey_lt {α : Type} {key : Text} {a : α} {pairs : List (Text × α)}
    (h : pairs.lookup key = some a) : (dropKey key pairs).length < pairs.length := by
  obtain ⟨before, rest, rfl, -⟩ := List.lookup_eq_some_iff.1 h
  exact List.length_filter_lt_length_iff_exists.2 ⟨(key, a), by simp, by simp⟩

section
variable (r : Registry) (key key' : Text) (service : Value) (factory : Nat)

@[simp, grind =] theorem ready_register : (r.register key service).ready.lookup key' =
    if key = key' then some service else r.ready.lookup key' :=
  lookup_setKey ..

@[simp, grind =] theorem factories_register : (r.register key service).factories.lookup key' =
    if key = key' then none else r.factories.lookup key' :=
  lookup_dropKey ..

@[simp, grind =] theorem ready_registerFactory : (r.registerFactory key factory).ready.lookup key' =
    if key = key' then none else r.ready.lookup key' :=
  lookup_dropKey ..

@[simp, grind =] theorem factories_registerFactory :
    (r.registerFactory key factory).factories.lookup key' =
      if key = key' then some factory else r.factories.lookup key' :=
  lookup_setKey ..

@[simp, grind =] theorem ready_unregister : (r.unregister key).ready.lookup key' =
    if key = key' then none else r.ready.lookup key' :=
  lookup_dropKey ..

@[simp, grind =] theorem factories_unregister : (r.unregister key).factories.lookup key' =
    if key = key' then none else r.factories.lookup key' :=
  lookup_dropKey ..

@[simp, grind =] theorem ready_take : (r.take key).ready = r.ready := rfl

@[simp, grind =] theorem factories_take : (r.take key).factories.lookup key' =
    if key = key' then none else r.factories.lookup key' :=
  lookup_dropKey ..

@[simp, grind =] theorem ready_keep : (r.keep key service).ready.lookup key' =
    if key = key' then some service else r.ready.lookup key' :=
  lookup_setKey ..

@[simp, grind =] theorem factories_keep : (r.keep key service).factories = r.factories := rfl

theorem contains_register : (r.register key service).contains key' =
    (decide (key = key') || r.contains key') := by
  by_cases hk : key = key' <;> simp [contains, hk]

theorem contains_registerFactory : (r.registerFactory key factory).contains key' =
    (decide (key = key') || r.contains key') := by
  by_cases hk : key = key' <;> simp [contains, hk]

theorem contains_keep : (r.keep key service).contains key' =
    (decide (key = key') || r.contains key') := by
  by_cases hk : key = key' <;> simp [contains, hk]

theorem contains_unregister : (r.unregister key).contains key' =
    (!decide (key = key') && r.contains key') := by
  by_cases hk : key = key' <;> simp [contains, hk]

/-- A key whose factory is taken out is there no more. -/
theorem contains_take (hready : r.ready.lookup key = none) : (r.take key).contains key' =
    (!decide (key = key') && r.contains key') := by
  by_cases hk : key = key'
  · subst hk
    simp [contains, hready]
  · simp [contains, hk]

end

theorem contains_eq_false_iff {r : Registry} {key : Text} : r.contains key = false ↔
    r.ready.lookup key = none ∧ r.factories.lookup key = none := by
  rw [contains, Bool.or_eq_false_iff, Option.isSome_eq_false_iff, Option.isSome_eq_false_iff,
    Option.isNone_iff_eq_none, Option.isNone_iff_eq_none]

/-- A ready service is found under its key, and no factory is. -/
theorem lookup_register (r : Registry) (key : Text) (service : Value) :
    (r.register key service).ready.lookup key = some service ∧
      (r.register key service).factories.lookup key = none := by
  simp

end Registry

end PathStore
