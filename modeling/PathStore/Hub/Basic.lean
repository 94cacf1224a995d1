import PathStore.Recipe
import PathStore.Store.Build
import PathStore.View

/-!
# States and their listeners

A state holds one current storage and counts the snapshots installed so far.  Listeners subscribe to
it; one listener can be subscribed several times.  What a listener does when it is called is a
script: actions on its state, on the storage it is given and on the subscriptions, each chosen from
the outcomes before it.  A listener has one script for each of its next calls and does nothing after
the last.  The hub holds the store, the states, the listeners and their subscriptions, the factories
of services and the values kept under names, together with the record of what was logged, delivered
and run.
-/

namespace PathStore

structure State where
  storage : Storage
  version : Nat
  /-- What to call, in the order of the subscriptions. -/
  subscribers : List Value
  deriving DecidableEq, Repr, Inhabited

/-- What a listener can do while it is called. -/
inductive Action where
  /-- Puts a value into the listener's state. -/
  | set (key new : Template) (force : Bool)
  /-- Takes a value out of the listener's state. -/
  | delete (key : Template) (keep : Choice) (force : Bool)
  /-- Puts a value into the storage that the listener was given. -/
  | write (key new : Template)
  /-- Installs a new snapshot in the listener's state. -/
  | refresh
  /-- Subscribes what is kept under a name, and keeps the subscription under another name. -/
  | subscribe (listener keptAs : Text)
  /-- Ends the subscription kept under a name. -/
  | unsubscribe (keptAs : Text)

/-- What a listener does in one call. -/
inductive Script where
  | done
  /-- The listener gives up. -/
  | fail
  | act (action : Action) (next : Except Fault Value → Script)

instance : Inhabited Script := ⟨.done⟩

structure Listener where
  name : Text
  /-- The number of the state that the listener acts on. -/
  home : Nat
  /-- The scripts of the next calls. -/
  scripts : List Script
  deriving Inhabited

/-- What was subscribed to a state. -/
structure Subscription where
  state : Nat
  listener : Value
  deriving DecidableEq, Repr, Inhabited

/-- One call of a listener: what it was given, and what its state was at that moment. -/
structure Delivery where
  /-- The number of the listener. -/
  listener : Nat
  given : Storage
  /-- Whether the storage given was the state's current one. -/
  current : Bool
  version : Nat
  contents : Data
  deriving Repr

/-- What code supplied by a caller was run for. -/
inductive Event where
  | delivery (d : Delivery)
  /-- A factory was run, so many times under its name so far. -/
  | made (factory : Text) (call : Nat)
  deriving Repr

structure Hub where
  store : Store
  states : Array State
  listeners : Array Listener
  subscriptions : Array Subscription
  factories : Array Factory
  names : Names
  log : List LogEntry
  /-- Whether the log drops an entry that cannot be written, as its usual handlers do; otherwise the
  fault of the entry gets through. -/
  dropsEntries : Bool
  events : List Event
  /-- The names of the factories that were run. -/
  made : List Text

namespace Hub

def empty : Hub where
  store := .empty
  states := #[]
  listeners := #[]
  subscriptions := #[]
  factories := #[]
  names := []
  log := []
  dropsEntries := true
  events := []
  made := []

instance : Inhabited Hub := ⟨empty⟩

def state (h : Hub) (n : Nat) : State :=
  h.states[n]?.getD default

def listener (h : Hub) (n : Nat) : Listener :=
  h.listeners[n]?.getD default

/-- The hub with a log entry added. -/
def note (h : Hub) (entry : LogEntry) : Hub :=
  { h with log := h.log ++ [entry] }

/-- The hub without the record of what happened so far. -/
def forget (h : Hub) : Hub :=
  { h with log := [], events := [] }

/-- The hub after an effect on its store, and the effect's result. -/
def apply {α : Type} (h : Hub) (e : Effect α) : Hub × Except Fault α :=
  ({ h with store := e.store, log := h.log ++ e.log }, e.result)

/-- The hub after a change of its store that may fail, and the outcome. -/
def attempt {α : Type} (h : Hub) (outcome : Except Fault (Store × α)) : Hub × Except Fault α :=
  match outcome with
  | .error fault => (h, .error fault)
  | .ok (s, a) => ({ h with store := s }, .ok a)

def build (h : Hub) (t : Template) : Hub × Except Fault Value :=
  h.apply (h.store.build h.names t)

/-! ## Names -/

/-- Keeps a value under a name, in place of an earlier one. -/
def keep (h : Hub) (name : Text) (v : Value) : Hub :=
  { h with names := (name, v) :: h.names }

def named (h : Hub) (name : Text) : Except Fault Value :=
  match h.names.lookup name with
  | some v => .ok v
  | none => .error (.unbound name)

/-! ## Opening storages and states -/

/-- The root to open a storage over: the given value, or a new mapping where it is nothing. -/
def rootOrEmpty (h : Hub) (initial : Value) : Hub × Value :=
  if initial.isNone then
    let (s, root) := h.store.alloc (.mapping .plain [])
    ({ h with store := s }, root)
  else (h, initial)

/-- Opens a storage over the given value, or over a new mapping where it is nothing. -/
def newStorage (h : Hub) (initial : Value) : Hub × Storage :=
  let (h, root) := h.rootOrEmpty initial
  let (s, st) := Storage.ofRoot h.store root
  ({ h with store := s }, st)

/-- Opens a state with version 0 over the given value; its number is returned. -/
def newState (h : Hub) (initial : Value) : Hub × Nat :=
  let (h, st) := h.newStorage initial
  ({ h with states := h.states.push ⟨st, 0, []⟩ }, h.states.size)

/-! ## Subscriptions -/

/-- Adds a listener, not yet subscribed, and returns the value that refers to it. -/
def newListener (h : Hub) (l : Listener) : Hub × Value :=
  ({ h with listeners := h.listeners.push l }, .object (.listener l.name) h.listeners.size)

/-- Subscribes a listener to a state; the function that ends the subscription is returned. -/
def subscribe (h : Hub) (state : Nat) (listener : Value) : Hub × Value :=
  ({ h with
      states := h.states.modify state fun st =>
        { st with subscribers := st.subscribers ++ [listener] }
      subscriptions := h.subscriptions.push ⟨state, listener⟩ },
    .object .function h.subscriptions.size)

/-- Ends a subscription: the first subscriber that equals its listener is taken out, if there is
one. -/
def unsubscribe (h : Hub) (subscription : Nat) : Hub :=
  match h.subscriptions[subscription]? with
  | none => h
  | some sub =>
    { h with
      states := h.states.modify sub.state fun st =>
        { st with subscribers := st.subscribers.eraseP fun v => h.store.same v sub.listener } }

/-- Calls a value that ends a subscription. -/
def callOff (h : Hub) : Value → Hub × Except Fault Value
  | .atom (.object .function n) _ => (h.unsubscribe n, .ok .none)
  | v => (h, .error (.notCallable (h.store.kindName v)))

end Hub

end PathStore
