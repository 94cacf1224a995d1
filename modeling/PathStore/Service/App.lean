import PathStore.Health
import PathStore.Service.Host
import PathStore.SharedState
import PathStore.Startup

/-!
# The service

The service holds one shared state, found through a registry, and is called to read, write and
delete values in it, to install a snapshot, to show all contents and to report on itself.
`App.handle` has a host answer one request and gives the service as it is afterwards; what was done
before a fault stays done.
-/

namespace PathStore.Service

/-! ## Building -/

structure Options where
  /-- Where the settings are. -/
  settingsPath : Option Text
  /-- The values to start with, in place of those in the settings. -/
  initial : Option Template
  title : Text

/-- A hub that holds the values to start with, and their root. -/
abbrev Seed := Hub × Value

namespace Options

def defaultTitle : Text := "ValueStore Server"

def default : Options := ⟨none, none, defaultTitle⟩

/-- Makes the values to start with, if they are given. -/
def seed? (o : Options) : Except Fault (Option Seed) :=
  match o.initial with
  | none => .ok none
  | some t =>
    match Hub.empty.build t with
    | (_, .error fault) => .error fault
    | (h, .ok root) => .ok (some (h, root))

end Options

/-- Why the service cannot be built. -/
inductive BuildFault where
  | settings (fault : SettingsFault)
  /-- The values to start with cannot be stored, or their keys not be counted. -/
  | contents (fault : Fault)
  deriving DecidableEq, Repr

def BuildFault.message : BuildFault → Text
  | settings fault => fault.message
  | contents fault => fault.message

structure App where
  hub : Hub
  /-- The number of the registry of services, if there is one. -/
  registry : Option Nat
  threshold : Level
  title : Text

namespace App

/-- Puts the initial values of the settings into a hub, with what is logged meanwhile. -/
def settingsSeed (read : DocumentReader) (files : FileTree) (o : Options) :
    List LogEntry × Except BuildFault Seed :=
  match Settings.load read files o.settingsPath with
  | (log, .error fault) => (log, .error (.settings fault))
  | (log, .ok settings) =>
    let (s, root) := Store.empty.load settings.initialValues
    (log, .ok ({ Hub.empty with store := s }, root))

/-- Provides a shared state over a root, and what is logged about it. -/
def provide (h : Hub) (root : Value) : Hub × Except Fault (Nat × LogEntry) :=
  let (s, _) := h.store.addRegistry .empty
  let registry := h.store.registries.size
  match Hub.provideShared { h with store := s } registry root with
  | (h, .error fault) => (h, .error fault)
  | (h, .ok n) =>
    match h.store.count (h.state n).storage.root with
    | .error fault => (h, .error fault)
    | .ok keys =>
      (h, .ok (registry, ⟨.info, "Shared storage seeded with " ++ Text.decimal keys ++
        " top-level keys"⟩))

/-- Builds the service, with what was logged meanwhile.  Values that are given to start with are
made before logging starts. -/
def build (read : DocumentReader) (files : FileTree) (o : Options) :
    List LogEntry × Except BuildFault App :=
  match o.seed? with
  | .error fault => ([], .error (.contents fault))
  | .ok given =>
    let setup := LogSetup.configure read files o.settingsPath
    let logged (log : List LogEntry) := setup.log ++ LogEntry.passing setup.threshold log
    match given.elim (settingsSeed read files o) fun seed => ([], .ok seed) with
    | (log, .error fault) => (logged log, .error fault)
    | (log, .ok (h, root)) =>
      match provide h root with
      | (_, .error fault) => (logged log, .error (.contents fault))
      | (h, .ok (registry, seeded)) =>
        (logged (log ++ [seeded]), .ok ⟨h, some registry, setup.threshold, o.title⟩)

/-! ## Calls -/

/-- The shared state, or the reply where it cannot be found. -/
def sharedState (a : App) : App × Except Reply Nat :=
  match a.registry with
  | none => (a, .error (.refusal 500 (.text "Service container not configured")))
  | some r =>
    match a.hub.resolve r sharedKey with
    | (h, .ok (.atom (.object .state n) _)) => ({ a with hub := h }, .ok n)
    | (h, _) =>
      ({ a with hub := h },
        .error (.refusal 500 (.text ("Service '" ++ sharedKey ++ "' not configured"))))

/-- What a refusal says about a storage error. -/
def errorDetail (name : Text) (f : Fault) (withReached : Bool) : Data :=
  let reached : Data :=
    match (f.storageError?).bind fun e => e.reached with
    | some s => .text s
    | none => .leaf .none
  let error : Text × Data := ("error", .text name)
  let message : Text × Data := ("message", .text f.message)
  .fields (if withReached then [error, message, ("partial", reached)] else [error, message])

/-- The reply to a fault of a read or write. -/
def faultReply (f : Fault) : Reply :=
  match f with
  | .blankKey _ | .noSegments _ => .refusal 400 (errorDetail "key_format" f false)
  | .keyNotFound .. => .refusal 404 (errorDetail "key_not_found" f true)
  | .rawValue .. => .refusal 409 (errorDetail "raw_value_detected" f true)
  | f => .crash f

/-- The fields that tell the version of a state after a change. -/
def changed (h : Hub) (n : Nat) (more : List (Text × Data)) : Data :=
  let ok : Text × Data := ("ok", .leaf (.bool true))
  let version : Text × Data := ("version", .leaf (.int (h.state n).version))
  .fields (ok :: more ++ [version])

def readValue (a : App) (n : Nat) (path : Text) : Reply :=
  match a.hub.getValue n (.text path) with
  | .ok v => .contents (.fields [("path", .text path), ("value", a.hub.store.tree v)])
  | .error fault => faultReply fault

/-- The contents of a state. -/
def contents (h : Hub) (n : Nat) : Data :=
  h.store.tree (h.state n).storage.root

/-- Installs a snapshot in a state, if there is room to copy its contents. -/
def refresher (hasRoom : Data → Bool) : Hub.Refresher := fun h n =>
  if hasRoom (contents h n) then h.refresh n else (h, .error .tooDeep)

def writeValue (hasRoom : Data → Bool) (a : App) (n : Nat) (p : Payload) : App × Reply :=
  let (s, v) := a.hub.store.load p.value
  match { a.hub with store := s }.setWith (refresher hasRoom) n (.text p.path) v p.force with
  | (h, .ok ()) =>
    let h := h.note ⟨.debug, "Stored value at " ++ p.path ++ " via API"⟩
    ({ a with hub := h }, .contents (changed h n []))
  | (h, .error fault) => ({ a with hub := h }, faultReply fault)

def deleteValue (hasRoom : Data → Bool) (a : App) (n : Nat) (path : Text) (keep force : Bool) :
    App × Reply :=
  match a.hub.deleteWith (refresher hasRoom) n (.text path) (.ofBool keep) force with
  | (h, .ok removed) =>
    ({ a with hub := h }, .contents (changed h n [("removed", h.store.tree removed)]))
  | (h, .error fault) => ({ a with hub := h }, .crash fault)

def refresh (hasRoom : Data → Bool) (a : App) (n : Nat) : App × Reply :=
  match refresher hasRoom a.hub n with
  | (h, .ok _) => ({ a with hub := h }, .contents (changed h n []))
  | (h, .error fault) => ({ a with hub := h }, .crash fault)

/-- Shows a copy of all contents. -/
def snapshot (hasRoom : Data → Bool) (a : App) (n : Nat) : Reply :=
  let data := contents a.hub n
  if hasRoom data then
    .contents (.fields [("version", .leaf (.int (a.hub.state n).version)), ("data", data)])
  else .crash .tooDeep

def report (a : App) (n : Nat) : Reply :=
  match PathStore.health a.hub.store (a.hub.state n).storage.value with
  | .ok d => .contents d
  | .error fault => .crash fault

/-- Carries out a call on a state. -/
def carryOut (hasRoom : Call → Data → Bool) (a : App) (n : Nat) (c : Call) : App × Reply :=
  match c with
  | .read path => (a, a.readValue n path)
  | .write p => a.writeValue (hasRoom c) n p
  | .delete path keep force => a.deleteValue (hasRoom c) n path keep force
  | .refresh => a.refresh (hasRoom c) n
  | .snapshot => (a, a.snapshot (hasRoom c) n)

/-- Replies on the shared state. -/
def serve (hasRoom : Call → Data → Bool) (a : App) (e : Endpoint) : App × Reply :=
  match a.sharedState with
  | (a, .error reply) => (a, reply)
  | (a, .ok n) =>
    match e with
    | .storage c => a.carryOut hasRoom n c
    | .health => (a, a.report n)

/-- Answers a request, with what was logged meanwhile. -/
def handle {ρ ω : Type} (host : Host ρ ω) (a : App) (r : ρ) : App × ω × List LogEntry :=
  let a := { a with hub := a.hub.forget }
  match host.decode r with
  | .error response => (a, response, [])
  | .ok e =>
    let (a, reply) := a.serve host.hasRoom e
    (a, host.encode reply, LogEntry.passing a.threshold a.hub.log)

/-! ## Changes to the registry -/

def withoutRegistry (a : App) : App :=
  { a with registry := none }

/-- The service with a registry that has no shared state. -/
def withoutState (a : App) : App :=
  match a.registry with
  | none => a
  | some n => { a with hub := a.hub.modifyRegistry n fun r => r.unregister sharedKey }

end App

end PathStore.Service
