import PathStore.Hub.Basic

/-!
# Installing snapshots and calling listeners

`refresh` installs a snapshot as a state's current storage and then calls, in the order of their
subscriptions, the listeners that are subscribed at that moment.  A listener's failure is logged and
the round goes on; contents that cannot be copied stop a round before it starts.  A log whose
handlers let the fault of an entry through (`Hub.dropsEntries`) ends the round at a subscriber that
fails and cannot be shown.  Listeners can install snapshots themselves, so rounds nest; every nested
round uses up one script of a listener, which bounds the depth (`Hub.pending`).
-/

namespace PathStore.Hub

/-! ## One call -/

def setIn (h : Hub) (n : Nat) (key new : Value) : Hub × Except Fault Unit :=
  h.apply ((h.state n).storage.set h.store key new)

def deleteIn (h : Hub) (n : Nat) (key : Value) (keep : Choice) : Hub × Except Fault Value :=
  h.apply ((h.state n).storage.delete h.store key keep)

/-- Makes what two templates describe, one after the other. -/
def buildTwo (h : Hub) (t u : Template) : Hub × Except Fault (Value × Value) :=
  match h.build t with
  | (h, .error fault) => (h, .error fault)
  | (h, .ok v) =>
    match h.build u with
    | (h, .error fault) => (h, .error fault)
    | (h, .ok w) => (h, .ok (v, w))

/-- What installs a further snapshot in a state. -/
abbrev Refresher := Hub → Nat → Hub × Except Fault Storage

/-- Gives an answer, after a further snapshot if one is wanted. -/
def answerAfter {α : Type} (again : Refresher) (n : Nat) (force : Bool) (h : Hub) (answer : α) :
    Hub × Except Fault α :=
  if force then
    match again h n with
    | (h, .ok _) => (h, .ok answer)
    | (h, .error fault) => (h, .error fault)
  else (h, .ok answer)

/-- Puts a value into a state; with `force` a snapshot is installed afterwards. -/
def setWith (again : Refresher) (h : Hub) (n : Nat) (key new : Value) (force : Bool) :
    Hub × Except Fault Unit :=
  match h.setIn n key new with
  | (h, .ok ()) => answerAfter again n force h ()
  | (h, .error fault) => (h, .error fault)

/-- Takes a value out of a state; with `force` a snapshot is installed afterwards. -/
def deleteWith (again : Refresher) (h : Hub) (n : Nat) (key : Value) (keep : Choice)
    (force : Bool) : Hub × Except Fault Value :=
  match h.deleteIn n key keep with
  | (h, .ok removed) => answerAfter again n force h removed
  | (h, .error fault) => (h, .error fault)

/-- Carries out an action of a listener; `again` installs a further snapshot. -/
def perform (again : Refresher) (home : Nat) (given : Storage) (h : Hub) :
    Action → Hub × Except Fault Value
  | .set key new force =>
    match h.buildTwo key new with
    | (h, .error fault) => (h, .error fault)
    | (h, .ok (key, new)) =>
      let (h, r) := h.setWith again home key new force
      (h, r.map fun _ => .none)
  | .delete key keep force =>
    match h.build key with
    | (h, .error fault) => (h, .error fault)
    | (h, .ok key) => h.deleteWith again home key keep force
  | .write key new =>
    match h.buildTwo key new with
    | (h, .error fault) => (h, .error fault)
    | (h, .ok (key, new)) =>
      let (h, r) := h.apply (given.set h.store key new)
      (h, r.map fun _ => .none)
  | .refresh =>
    let (h, r) := again h home
    (h, r.map Storage.value)
  | .subscribe listener keptAs =>
    match h.named listener with
    | .error fault => (h, .error fault)
    | .ok v =>
      let (h, off) := h.subscribe home v
      (h.keep keptAs off, .ok .none)
  | .unsubscribe keptAs =>
    match h.named keptAs with
    | .error fault => (h, .error fault)
    | .ok v => h.callOff v

/-- Runs a script; the flag says that the listener gave up. -/
def run (act : Hub → Action → Hub × Except Fault Value) : Script → Hub → Hub × Bool
  | .done, h => (h, false)
  | .fail, h => (h, true)
  | .act action next, h =>
    let (h, outcome) := act h action
    run act (next outcome) h

/-- The record of a call of listener `n` with the storage `given`. -/
def deliveryOf (h : Hub) (given : Storage) (n : Nat) : Delivery where
  listener := n
  given := given
  current := (h.state (h.listener n).home).storage = given
  version := (h.state (h.listener n).home).version
  contents := h.store.tree given.root

/-- Takes the next script of a listener. -/
def takeScript (h : Hub) (n : Nat) : Hub × Script :=
  match (h.listener n).scripts with
  | [] => (h, .done)
  | script :: rest =>
    ({ h with listeners := h.listeners.modify n fun l => { l with scripts := rest } }, script)

/-- Calls a subscriber with a storage; the flag says that the call failed, which it does for
everything that is no listener. -/
def call (again : Refresher) (given : Storage) (h : Hub) : Value → Hub × Bool
  | .atom (.object (.listener _) n) _ =>
    let home := (h.listener n).home
    let h := { h with events := h.events ++ [Event.delivery (h.deliveryOf given n)] }
    let (h, script) := h.takeScript n
    run (perform again home given) script h
  | _ => (h, true)

/-- Logs that a subscriber failed.  Where it cannot be shown the entry is dropped, if the log drops
such entries. -/
def noteFailure (h : Hub) (subscriber : Value) : Hub × Except Fault Unit :=
  match h.store.shown subscriber with
  | .ok text => (h.note ⟨.error, "Storage listener " ++ text ++ " failed"⟩, .ok ())
  | .error fault => (h, if h.dropsEntries then .ok () else .error fault)

/-- Calls subscribers with a storage, up to one whose failure cannot be logged. -/
def deliver (again : Refresher) (given : Storage) (h : Hub) : List Value → Hub × Except Fault Unit
  | [] => (h, .ok ())
  | subscriber :: rest =>
    match h.call again given subscriber with
    | (h, false) => deliver again given h rest
    | (h, true) =>
      match h.noteFailure subscriber with
      | (h, .ok ()) => deliver again given h rest
      | (h, .error fault) => (h, .error fault)

/-! ## Rounds -/

/-- Makes a copy of a state's storage its current storage. -/
def install (h : Hub) (n : Nat) : Hub × Except Fault Storage :=
  match h.attempt ((h.state n).storage.snapshot h.store) with
  | (h, .error fault) => (h, .error fault)
  | (h, .ok st) =>
    let version := (h.state n).version + 1
    let h := { h with
      states := h.states.modify n fun s => { s with storage := st, version := version } }
    (h.note ⟨.debug, "Installed storage snapshot version " ++ Text.decimal version⟩, .ok st)

/-- Installs a snapshot and calls the subscribers of that moment. -/
def round (again : Refresher) (h : Hub) (n : Nat) : Hub × Except Fault Storage :=
  match h.install n with
  | (h, .error fault) => (h, .error fault)
  | (h, .ok st) =>
    match deliver again st h (h.state n).subscribers with
    | (h, .ok ()) => (h, .ok st)
    | (h, .error fault) => (h, .error fault)

/-- Rounds that nest to a depth. -/
def roundTo : Nat → Refresher
  | 0 => round fun h n => (h, .ok (h.state n).storage)
  | depth + 1 => round (roundTo depth)

/-- The number of scripts that listeners still have. -/
def pending (h : Hub) : Nat :=
  h.listeners.toList.foldl (fun n l => n + l.scripts.length) 0

/-- Installs a snapshot in a state, notifies its subscribers, and returns the snapshot. -/
def refresh (h : Hub) (n : Nat) : Hub × Except Fault Storage :=
  roundTo h.pending h n

/-! ## Operations on a state -/

def getValue (h : Hub) (n : Nat) (key : Value) : Except Fault Value :=
  (h.state n).storage.get h.store key

/-- Puts a value into a state; with `force` a snapshot is installed afterwards. -/
def setValue (h : Hub) (n : Nat) (key new : Value) (force : Bool) : Hub × Except Fault Unit :=
  h.setWith refresh n key new force

/-- Takes a value out of a state; with `force` a snapshot is installed afterwards. -/
def deleteValue (h : Hub) (n : Nat) (key : Value) (keep : Choice) (force : Bool) :
    Hub × Except Fault Value :=
  h.deleteWith refresh n key keep force

end PathStore.Hub
