import PathStore.Json.Reader
import PathStore.Json.Wire
import PathStore.Service.Host
import PathStore.Settings
import PathStore.Yaml.Contents

/-!
# A host to run the service on

`Web.host` reads calls off requests, which name a method and a path and can carry query pairs and a
body, and sends replies as JSON.  A request whose parameters are not valid is answered with the list of
what is wrong; a fault that got through is reported as a crash, and so is a reply that cannot be sent.
How deep contents can be to be copied, sent or read depends on the machine (`Limits`).  The service does
without all this: it runs on every host, and what is said about it is said of every host.
-/

namespace PathStore.Web

/-- How many containers can stand inside one another. -/
structure Limits where
  /-- In contents that are copied. -/
  copied : Nat
  /-- In contents that are sent. -/
  sent : Nat
  /-- In a body. -/
  received : Nat
  /-- In a document. -/
  document : Nat

/-! ## Requests -/

inductive RequestBody where
  /-- Contents, sent as JSON. -/
  | contents (d : Data)
  /-- Octets, sent as they are. -/
  | raw (octets : List UInt8)

structure Request where
  method : Text
  path : Text
  query : List (Text × Text)
  body : Option RequestBody

/-- The value of a query name; the last counts. -/
def Request.queryValue? (r : Request) (name : String) : Option Text :=
  r.query.reverse.lookup (Text.ofString name)

/-! ## What is wrong with parameters -/

/-- A kind of mistake, the place of the parameter and what was given. -/
structure Invalid where
  kind : String
  place : List String
  given : Data
  deriving Repr

namespace Invalid

/-- The order of mistakes: by kind, then by place. -/
def le (a b : Invalid) : Bool :=
  Text.before a.kind b.kind ||
    (a.kind == b.kind && !List.lex b.place a.place fun s t => Text.before s t)

def sort (xs : List Invalid) : List Invalid :=
  xs.mergeSort le

end Invalid

/-! ## Responses -/

/-- Why a request has no answer of its own. -/
inductive Crash where
  | fault (f : Fault)
  | unsendable (u : Json.Unsendable)
  deriving DecidableEq, Repr

inductive ResponseBody where
  | contents (d : Data)
  | invalid (mistakes : List Invalid)
  | text (s : Text)

structure Response where
  status : Nat
  body : ResponseBody
  crash : Option Crash

namespace Response

def crashed (c : Crash) : Response :=
  ⟨500, .text "Internal Server Error", some c⟩

/-- An answer with contents as they arrive, if they can be sent. -/
def send (limits : Limits) (status : Nat) (d : Data) : Response :=
  match Json.send? limits.sent d with
  | .ok d => ⟨status, .contents d, none⟩
  | .error u => crashed (.unsendable u)

/-- An answer that the request cannot be served. -/
def refusal (limits : Limits) (status : Nat) (detail : Data) : Response :=
  send limits status (.fields [("detail", detail)])

/-- An answer that parameters are not valid, if what was given can be shown. -/
def invalid (limits : Limits) (mistakes : List Invalid) : Response :=
  match Json.send? limits.sent (.list (mistakes.map Invalid.given)) with
  | .ok _ => ⟨422, .invalid (Invalid.sort mistakes), none⟩
  | .error u => crashed (.unsendable u)

/-- An answer that the path has to be asked for without slashes at its end. -/
def redirect : Response :=
  ⟨307, .text [], none⟩

end Response

/-! ## Truth values in parameters -/

/-- The truth value that a text stands for, in any case. -/
def truth? (t : Text) : Option Bool := do
  let s := (← t.string?).toLower
  if ["1", "true", "t", "yes", "y", "on"].contains s then some true
  else if ["0", "false", "f", "no", "n", "off"].contains s then some false
  else none

/-- A truth value from the query, `false` where it is not given. -/
def queryFlag (r : Request) (name : String) : Except Invalid Bool :=
  match r.queryValue? name with
  | none => .ok false
  | some s =>
    match truth? s with
    | some b => .ok b
    | none => .error ⟨"bool_parsing", ["query", name], .text s⟩

/-! ## The body of a write -/

def minInteger : Int := -0x8000000000000000

/-- The integer of 64 bits that contents are equal to; a number with a fraction is none, and the
least integer is one only where it is written as an integer. -/
def machineInteger? (d : Data) : Option Int :=
  let inside (i : Int) : Option Int := if minInteger ≤ i ∧ i < -minInteger then some i else none
  match d with
  | .leaf (.int i) => inside i
  | .leaf (.float x) => (x.toInt?.bind inside).filter (· ≠ minInteger)
  | _ => none

/-- A truth value from a body. -/
def flagOf (d : Data) : Except Invalid Bool :=
  let refuse (kind : String) : Except Invalid Bool :=
    .error ⟨kind, ["body", "force_update"], d⟩
  match d with
  | .leaf (.bool b) => .ok b
  | .leaf (.text s) =>
    match truth? s with
    | some b => .ok b
    | none => refuse "bool_parsing"
  | d =>
    match machineInteger? d with
    | some 0 => .ok false
    | some 1 => .ok true
    | some _ => refuse "bool_parsing"
    | none => refuse "bool_type"

/-- A path from the entries of a body. -/
def pathOf (es : Entries Data) : Except Invalid Text :=
  let place := ["body", "path"]
  match es.find? (.text "path") with
  | none => .error ⟨"missing", place, .mapping .plain es⟩
  | some (.leaf (.text s)) => .ok s
  | some d => .error ⟨"string_type", place, d⟩

/-- The payload that the entries of a body are. -/
def payloadOfEntries (es : Entries Data) : Except (List Invalid) Service.Payload :=
  let value := (es.find? (.text "value")).getD (.leaf .none)
  let force : Except Invalid Bool := match es.find? (.text "force_update") with
    | none => .ok false
    | some d => flagOf d
  match pathOf es, force with
  | .ok path, .ok force => .ok ⟨path, value, force⟩
  | .ok _, .error e => .error [e]
  | .error e, .ok _ => .error [e]
  | .error e, .error e' => .error [e, e']

/-- The payload that the contents of a body are. -/
def payloadOfData (d : Data) : Except (List Invalid) Service.Payload :=
  match d with
  | .mapping _ es => payloadOfEntries es
  | d => .error [⟨"model_attributes_type", ["body"], d⟩]

/-- The contents of a body, or the answer to one that cannot be read. -/
def bodyContents (limits : Limits) (r : Request) : Except Response Data :=
  match r.body with
  | none | some (.raw []) => .error (.invalid limits [⟨"missing", ["body"], .leaf .none⟩])
  | some (.contents d) => .ok (Json.arrive d)
  | some (.raw octets) =>
    match Json.read limits.received octets with
    | .ok d => .ok d
    | .error .malformed => .error (.invalid limits [⟨"json_invalid", ["body"], .empty⟩])
    | .error _ => .error (.refusal limits 400 (.text "There was an error parsing the body"))

/-- The payload of a request, or the answer to one that has none. -/
def payload (limits : Limits) (r : Request) : Except Response Service.Payload :=
  match bodyContents limits r with
  | .error answer => .error answer
  | .ok d =>
    match payloadOfData d with
    | .ok p => .ok p
    | .error mistakes => .error (.invalid limits mistakes)

/-! ## Routes -/

inductive Route where
  | value
  | refresh
  | snapshot
  | health
  deriving DecidableEq, Repr

/-- The route of a path; a line feed at its end does not count. -/
def route? (path : Text) : Option Route :=
  let p := if path.getLast? = some (.char '\n') then path.dropLast else path
  if p = "/api/storage/value" then some .value
  else if p = "/api/storage/refresh" then some .refresh
  else if p = "/api/storage/snapshot" then some .snapshot
  else if p = "/api/health" then some .health
  else none

/-- Whether a path is that of a route but for slashes at its end. -/
def isSlashed (path : Text) : Bool :=
  let bare : Text := (path.reverse.dropWhile (· == CodePoint.char '/')).reverse
  path ≠ bare && (route? bare).isSome

/-- The call that a request to delete is for. -/
def deletion (limits : Limits) (r : Request) (path : Text) : Except Response Service.Call :=
  match queryFlag r "preserve_length", queryFlag r "force_update" with
  | .ok keep, .ok force => .ok (.delete path keep force)
  | .ok _, .error e => .error (.invalid limits [e])
  | .error e, .ok _ => .error (.invalid limits [e])
  | .error e, .error e' => .error (.invalid limits [e, e'])

/-- What a request to a route asks for. -/
def endpoint (limits : Limits) (r : Request) (route : Route) : Except Response Service.Endpoint :=
  let path := (r.queryValue? "path").getD ""
  if route = .value ∧ r.method = "GET" then .ok (.storage (.read path))
  else if route = .value ∧ r.method = "PUT" then
    (payload limits r).map fun p => .storage (.write p)
  else if route = .value ∧ r.method = "DELETE" then (deletion limits r path).map .storage
  else if route = .refresh ∧ r.method = "POST" then .ok (.storage .refresh)
  else if route = .snapshot ∧ r.method = "GET" then .ok (.storage .snapshot)
  else if route = .health ∧ r.method = "GET" then .ok .health
  else .error (.refusal limits 405 (.text "Method Not Allowed"))

/-! ## The host -/

/-- What a request asks for, or the answer to one that asks for nothing. -/
def decode (limits : Limits) (r : Request) : Except Response Service.Endpoint :=
  if isSlashed r.path then .error .redirect
  else
    match route? r.path with
    | none => .error (.refusal limits 404 (.text "Not Found"))
    | some route => endpoint limits r route

def host (limits : Limits) : Service.Host Request Response where
  decode := decode limits
  encode
    | .contents d => .send limits 200 d
    | .refusal status detail => .refusal limits status detail
    | .crash fault => .crashed (.fault fault)
  arrive response :=
    match response.body with
    | .contents d => ⟨response.status, some d⟩
    | _ => ⟨response.status, none⟩
  hasRoom _ d := d.depth ≤ limits.copied

def document (limits : Limits) : DocumentReader := fun octets =>
  (Yaml.read limits.document octets).mapError fun reason =>
    let kind := match reason with
      | .undecodable => "UnicodeDecodeError"
      | .tooDeep => "RecursionError"
      | .hugeCharacter | .hugePlace => "OverflowError"
      | reason => if reason.message?.isSome then "ValueError" else "YAMLError"
    ⟨kind, reason.message?⟩

/-- What is said about a title that a service cannot have. -/
def titleFault? (title : Text) : Option Text :=
  if title = [] then some "A title must be provided for OpenAPI, e.g.: 'My API'" else none

end PathStore.Web
