import PathStore.Data.Template
import PathStore.Fault
import PathStore.Store.Value

/-!
# Recipes

What a factory does is a recipe: it can ask for other services and whether there are any, register
further ones, ready or with a factory of their own, take services away, and ends by giving a service
or giving up.  A recipe of index `k` registers
factories in such numbers that, with those that they register in turn, they are at most `k`.  A
function that registers itself whenever it is called has no such bound, but in the course of a run it
does what one recipe does whose index is large enough.
-/

namespace PathStore

inductive Recipe : Nat → Type where
  /-- Gives new contents as the service. -/
  | give {k : Nat} (service : Template) : Recipe k
  /-- Gives an existing value as the service. -/
  | hand {k : Nat} (service : Value) : Recipe k
  | fail {k : Nat} (fault : Fault) : Recipe k
  /-- Asks for the service under a key and goes on with the answer. -/
  | resolve {k : Nat} (key : Text) (next : Except Fault Value → Recipe k) : Recipe k
  /-- Asks whether there is a service under a key and goes on with the answer. -/
  | test {k : Nat} (key : Text) (next : Bool → Recipe k) : Recipe k
  | unregister {k : Nat} (key : Text) (next : Recipe k) : Recipe k
  /-- Registers new contents as a ready service. -/
  | register {k : Nat} (key : Text) (service : Template) (next : Recipe k) : Recipe k
  /-- Registers a factory with the recipe `later`. -/
  | supply {m n k : Nat} (bound : m + 1 + n ≤ k) (key name : Text) (later : Recipe m)
      (next : Recipe n) : Recipe k

instance {k : Nat} : Inhabited (Recipe k) := ⟨.give .none⟩

structure Factory where
  name : Text
  /-- The number of the registry that the recipe asks and registers in. -/
  home : Nat
  /-- A bound for the factories that come of this one. -/
  supplies : Nat
  recipe : Recipe supplies

instance : Inhabited Factory := ⟨⟨[], 0, 0, .give .none⟩⟩

end PathStore
