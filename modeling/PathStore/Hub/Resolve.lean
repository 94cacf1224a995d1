import PathStore.Hub.Basic

/-!
# Resolving services

`resolve` gives the service under a key of a registry.  A factory is run once: it leaves the
registry before it runs, and what it gives is kept as a ready service.  Every factory that runs has
left its registry, so the number of those that are registered, each counted with the factories that
can come of it, bounds how deep they nest (`Hub.unmade`).
-/

namespace PathStore.Hub

def modifyRegistry (h : Hub) (n : Nat) (f : Registry → Registry) : Hub :=
  { h with store := h.store.modifyRegistry n f }

def factory (h : Hub) (number : Nat) : Factory :=
  h.factories[number]?.getD default

/-- Adds a factory function; its number is returned. -/
def newFactory (h : Hub) (f : Factory) : Hub × Nat :=
  ({ h with factories := h.factories.push f }, h.factories.size)

def registerFactory (h : Hub) (n : Nat) (key : Text) (f : Factory) : Hub :=
  let (h, number) := h.newFactory f
  h.modifyRegistry n fun r => r.registerFactory key number

def noteMade (h : Hub) (name : Text) : Hub :=
  let made := h.made ++ [name]
  { h with made := made, events := h.events ++ [Event.made name (made.count name)] }

/-- What gives the service under a key of a registry. -/
abbrev Resolver := Hub → Nat → Text → Hub × Except Fault Value

/-- Follows a recipe that asks and registers in the registry `home`. -/
def follow (again : Resolver) (home : Nat) {k : Nat} : Recipe k → Hub → Hub × Except Fault Value
  | .give service, h => h.build service
  | .hand service, h => (h, .ok service)
  | .fail fault, h => (h, .error fault)
  | .resolve key next, h =>
    let (h, answer) := again h home key
    follow again home (next answer) h
  | .test key next, h => follow again home (next ((h.store.registry home).contains key)) h
  | .unregister key next, h =>
    follow again home next (h.modifyRegistry home fun r => r.unregister key)
  | .register key service next, h =>
    match h.build service with
    | (h, .error fault) => (h, .error fault)
    | (h, .ok v) => follow again home next (h.modifyRegistry home fun r => r.register key v)
  | .supply (m := m) _ key name later next, h =>
    follow again home next (h.registerFactory home key ⟨name, home, m, later⟩)

/-- The service under a key of a registry, where `again` resolves what its factory asks for. -/
def resolveWith (again : Resolver) (h : Hub) (n : Nat) (key : Text) :
    Hub × Except Fault Value :=
  match (h.store.registry n).ready.lookup key with
  | some service => (h, .ok service)
  | none =>
    match (h.store.registry n).factories.lookup key with
    | none => (h, .error (.unknownService key))
    | some number =>
      let f := h.factory number
      let h := (h.modifyRegistry n fun r => r.take key).noteMade f.name
      match follow again f.home f.recipe h with
      | (h, .ok service) => (h.modifyRegistry n fun r => r.keep key service, .ok service)
      | (h, .error fault) => (h, .error fault)

/-- Resolves a key with factories that nest to a depth. -/
def resolveTo : Nat → Resolver
  | 0 => resolveWith fun h _ key => (h, .error (.unknownService key))
  | depth + 1 => resolveWith (resolveTo depth)

/-- The number of factories in a registry, with those that can come of them. -/
def unmadeIn (h : Hub) (r : Registry) : Nat :=
  r.factories.foldl (fun k e => k + ((h.factory e.2).supplies + 1)) 0

/-- The number of factories that have not run, in all registries, with those that can come of
them. -/
def unmade (h : Hub) : Nat :=
  h.store.registries.toList.foldl (fun k r => k + h.unmadeIn r) 0

/-- The service under a key of a registry, made by its factory if it is not ready. -/
def resolve (h : Hub) (n : Nat) (key : Text) : Hub × Except Fault Value :=
  resolveTo h.unmade h n key

end PathStore.Hub
