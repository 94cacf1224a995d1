import PathStore.Path.Format
import PathStore.Log
import PathStore.Store.Basic

/-!
# Effects

What an operation on a store ends with: the store as it leaves it, the entries that it logged, and
its answer or the fault that stopped it.  What was done before a fault stays done.
-/

namespace PathStore

structure Effect (α : Type) where
  store : Store
  log : List LogEntry
  result : Except Fault α

namespace Effect

variable {α β : Type}

def done (s : Store) (a : α) : Effect α :=
  ⟨s, [], .ok a⟩

def fail (s : Store) (f : Fault) : Effect α :=
  ⟨s, [], .error f⟩

/-- The same effect with a log entry in front. -/
def after (entry : LogEntry) (e : Effect α) : Effect α :=
  { e with log := entry :: e.log }

/-- One effect and then, unless it ended with a fault, another. -/
def andThen (e : Effect α) (f : Store → α → Effect β) : Effect β :=
  match e.result with
  | .error fault => ⟨e.store, e.log, .error fault⟩
  | .ok a =>
    let e' := f e.store a
    ⟨e'.store, e.log ++ e'.log, e'.result⟩

@[simp] theorem andThen_done (s : Store) (a : α) (f : Store → α → Effect β) :
    (done s a).andThen f = f s a := rfl

@[simp] theorem andThen_fail (s : Store) (x : Fault) (f : Store → α → Effect β) :
    (fail s x : Effect α).andThen f = fail s x := rfl

theorem andThen_of_ok {e : Effect α} {a : α} {f : Store → α → Effect β} (h : e.result = .ok a) :
    (e.andThen f).store = (f e.store a).store ∧ (e.andThen f).result = (f e.store a).result := by
  simp only [andThen, h, and_self]

theorem andThen_of_error {e : Effect α} {x : Fault} {f : Store → α → Effect β}
    (h : e.result = .error x) :
    (e.andThen f).store = e.store ∧ (e.andThen f).result = .error x := by
  simp only [andThen, h, and_self]

end Effect

end PathStore
