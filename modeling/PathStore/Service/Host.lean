import PathStore.Fault
import PathStore.Data.Tree

/-!
# Calls, replies and the host

The service is called with parameters that have been read and checked, and replies with contents, with
a refusal or with a fault that it does not handle.  How calls are read off requests and replies are
written into responses is not its concern: that is the work of the framework that it is run by, and
together with the interpreter's stack it is the host of the service.
-/

namespace PathStore.Service

/-! ## Calls -/

/-- What a write is called with. -/
structure Payload where
  path : Text
  value : Data
  force : Bool

/-- What the storage is asked for. -/
inductive Call where
  | read (path : Text)
  | write (p : Payload)
  | delete (path : Text) (keep force : Bool)
  | refresh
  | snapshot

inductive Endpoint where
  | storage (c : Call)
  | health

/-! ## Replies -/

inductive Reply where
  | contents (d : Data)
  | refusal (status : Nat) (detail : Data)
  /-- A fault got through that is not handled. -/
  | crash (fault : Fault)

/-- What arrives of a response: its status and, unless the body is something else, its contents. -/
structure Answer where
  status : Nat
  contents : Option Data

def Reply.answer : Reply → Answer
  | contents d => ⟨200, some d⟩
  | refusal status detail => ⟨status, some (.fields [("detail", detail)])⟩
  | crash _ => ⟨500, none⟩

/-! ## Hosts -/

/-- What runs the service, for requests `ρ` and responses `ω`. -/
structure Host (ρ ω : Type) where
  /-- What a request asks for, or the response to one that asks for nothing or is not valid. -/
  decode : ρ → Except ω Endpoint
  encode : Reply → ω
  arrive : ω → Answer
  /-- Whether the stack has room to copy contents, one level after the other, in a call. -/
  hasRoom : Call → Data → Bool

variable {ρ ω : Type}

/-- A reply arrives as it is meant. -/
def Host.Conveys (host : Host ρ ω) (reply : Reply) : Prop :=
  host.arrive (host.encode reply) = reply.answer

end PathStore.Service
