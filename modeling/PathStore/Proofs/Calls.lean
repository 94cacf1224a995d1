import PathStore.Proofs.Loading
import PathStore.Proofs.Outcomes
import PathStore.Service.App

/-!
# Calls of the service

How a call of the storage is replied to and what it leaves behind is told by the contents and the
version of the shared state (`Call.reply`, `Call.carry`, `Call.rise`), as long as the call is
well-formed and asks for no list that is too long (`Call.Allowed`).  Such a call succeeds, or it is
refused and leaves everything as it was, or it fails after its own operation because it has contents
copied and there is no room for that (`Call.Allowed.comes`).  How much room there is is up to the host.
-/

namespace PathStore.Service

/-- The status that tells of an outcome. -/
def statusOf {α : Type} : Except Fault α → Nat
  | .ok _ => 200
  | .error fault =>
    match fault.kind? with
    | some .keyFormat => 400
    | some .keyNotFound => 404
    | some .rawValue => 409
    | _ => 500

/-- The fields that tell a version, after others. -/
def told (version : Nat) (more : List (Text × Data)) : Data :=
  let ok : Text × Data := ("ok", .leaf (.bool true))
  let version : Text × Data := ("version", .leaf (.int version))
  .fields (ok :: more ++ [version])

namespace Call

/-- The operation on the contents, if there is one. -/
def op? : Call → Option Op
  | read path => some (.get (.text path))
  | write p => some (.set (.text p.path) p.value)
  | delete path keep _ => some (.delete (.text path) (.ofBool keep))
  | refresh => none
  | snapshot => none

/-- What a call makes of contents, and the outcome. -/
def carry (t : Data) (c : Call) : Data × Except Fault Data :=
  match c.op? with
  | some op => t.perform op
  | none => (t, .ok .nothing)

/-- Whether a call installs a snapshot when it succeeds. -/
def forces : Call → Bool
  | write p => p.force
  | delete _ _ force => force
  | refresh => true
  | _ => false

/-- Whether all contents are copied when a call succeeds. -/
def copies : Call → Bool
  | snapshot => true
  | c => c.forces

/-- Whether a call has contents copied, once its operation is done, that there is no room to copy. -/
def lacksRoom (room : Call → Data → Bool) (t : Data) (c : Call) : Bool :=
  c.copies && (c.carry t).2.isOk && !room c (c.carry t).1

/-- What a call comes to. -/
def outcome (room : Call → Data → Bool) (t : Data) (c : Call) : Except Fault Data :=
  if c.lacksRoom room t then .error .tooDeep else (c.carry t).2

/-- How many versions a call adds. -/
def rise (room : Call → Data → Bool) (t : Data) (c : Call) : Nat :=
  (c.forces && (c.outcome room t).isOk).toNat

/-- The contents of the reply to a call that succeeds with `u`. -/
def shown (t : Data) (v : Nat) (u : Data) : Call → Data
  | read path => .fields [("path", .text path), ("value", u)]
  | write p => told (v + p.force.toNat) []
  | delete _ _ force => told (v + force.toNat) [("removed", u)]
  | refresh => told (v + 1) []
  | snapshot => .fields [("version", .leaf (.int v)), ("data", t)]

/-- The reply to a call. -/
def reply (room : Call → Data → Bool) (t : Data) (v : Nat) (c : Call) : Reply :=
  match c.outcome room t with
  | .ok u => .contents (c.shown t v u)
  | .error fault => App.faultReply fault

/-- The classes of the faults that a call can be refused with. -/
def refusals : Call → List ErrorClass
  | read _ => [.keyFormat, .keyNotFound]
  | write _ => [.keyFormat, .rawValue]
  | _ => []

/-- The statuses that a call can be answered with. -/
def statuses : Call → List Nat
  | read _ => [200, 400, 404]
  | write _ => [200, 400, 409, 500]
  | _ => [200, 500]

/-- A call under a key that can be read, with a value that JSON can carry. -/
def WellFormed : Call → Prop
  | read path => path.Readable
  | write p => p.path.Readable ∧ p.value.IsJson
  | delete path _ _ => path.Readable
  | _ => True

/-- A well-formed call that makes no list too long. -/
structure Allowed (t : Data) (c : Call) : Prop where
  wellFormed : c.WellFormed
  fits : ¬ Overflows (c.carry t).2

end Call

/-! ## Statuses -/

variable {fault : Fault} {room : Call → Data → Bool} {t : Data} {v : Nat} {c : Call}

theorem faultReply_status (fault : Fault) :
    (App.faultReply fault).answer.status = statusOf (.error fault : Except Fault Data) := by
  cases fault <;> rfl

theorem statusOf_ok {α : Type} (a : α) : statusOf (.ok a) = 200 := rfl

theorem statusOf_error_ne {α : Type} (fault : Fault) :
    statusOf (.error fault : Except Fault α) ≠ 200 := by
  unfold statusOf
  split
  · next h => cases h
  · split <;> decide

theorem statusOf_eq_iff {α : Type} {e : Except Fault α} : statusOf e = 200 ↔ e.isOk = true := by
  cases e with
  | ok a => exact ⟨fun _ => rfl, fun _ => rfl⟩
  | error fault => exact ⟨fun h => absurd h (statusOf_error_ne fault), nofun⟩

theorem statusOf_map {α β : Type} (f : α → β) (e : Except Fault α) :
    statusOf (e.map f) = statusOf e := by
  cases e <;> rfl

namespace Call

variable {u : Data}

theorem reply_status (room : Call → Data → Bool) (t : Data) (v : Nat) (c : Call) :
    (c.reply room t v).answer.status = statusOf (c.outcome room t) := by
  unfold reply
  cases c.outcome room t with
  | ok u => rfl
  | error fault => exact faultReply_status fault

theorem outcome_of_ok (h : (c.carry t).2 = .ok u) :
    c.outcome room t =
      if c.copies && !room c (c.carry t).1 then .error .tooDeep else .ok u := by
  rw [outcome, lacksRoom, h]
  simp [Except.isOk, Except.toBool]

theorem lacksRoom_of_error (h : (c.carry t).2 = .error fault) : c.lacksRoom room t = false := by
  rw [lacksRoom, h]
  simp [Except.isOk, Except.toBool]

theorem refresh_lacksRoom (t : Data) : refresh.lacksRoom room t = !room .refresh t := rfl

theorem snapshot_lacksRoom (t : Data) : snapshot.lacksRoom room t = !room .snapshot t := rfl

theorem outcome_of_error (room : Call → Data → Bool) (h : (c.carry t).2 = .error fault) :
    c.outcome room t = .error fault := by
  rw [outcome, lacksRoom_of_error h, ← h]
  rfl

theorem outcome_of_room (h : c.lacksRoom room t = false) : c.outcome room t = (c.carry t).2 := by
  rw [outcome, h]
  rfl

theorem outcome_of_lacksRoom (h : c.lacksRoom room t = true) :
    c.outcome room t = .error .tooDeep := by
  rw [outcome, if_pos h]

theorem rise_of_ok (h : c.outcome room t = .ok u) : c.rise room t = c.forces.toNat := by
  rw [rise, h]
  simp [Except.isOk, Except.toBool]

theorem rise_of_error (h : c.outcome room t = .error fault) : c.rise room t = 0 := by
  rw [rise, h]
  simp [Except.isOk, Except.toBool]

/-- A forced call that succeeds adds a version if there is room for a copy. -/
theorem rise_of_carry (h : (c.carry t).2 = .ok u) (hf : c.copies = c.forces) :
    c.rise room t = (c.forces && room c (c.carry t).1).toNat := by
  rw [rise, outcome_of_ok h, hf]
  cases c.forces <;> cases room c (c.carry t).1 <;> rfl

theorem reply_of_ok (h : c.outcome room t = .ok u) :
    c.reply room t v = .contents (c.shown t v u) := by
  rw [reply, h]

theorem reply_of_error (h : c.outcome room t = .error fault) :
    c.reply room t v = App.faultReply fault := by
  rw [reply, h]

/-- A call whose operation does not succeed is refused with one of its faults and leaves everything as
it was. -/
theorem Allowed.refused (hc : c.Allowed t) (hm : t.isMapping = true)
    (h : (c.carry t).2 = .error fault) :
    (c.carry t).1 = t ∧ ∃ kind ∈ c.refusals, fault.kind? = some kind := by
  cases c with
  | read path =>
    rcases Data.read_outcome hc.wellFormed t with ⟨u, hu⟩ | ⟨fault', hf, hk⟩
    · cases hu.symm.trans h
    · cases hf.symm.trans h
      exact ⟨rfl, by simpa [refusals] using hk⟩
  | write p =>
    rcases Data.setAt_outcome hc.wellFormed.1 hm p.value with hok | ⟨fault', hf, hk⟩ | ho
    · cases (congrArg (Except.map fun _ => Data.nothing) hok).symm.trans h
    · have he : ((write p).carry t).2 = .error fault' :=
        congrArg (fun r : Data × Except Fault Unit => r.2.map fun _ => Data.nothing) hf
      cases he.symm.trans h
      exact ⟨congrArg Prod.fst hf, by simpa [refusals] using hk⟩
    · exact absurd (ho.map _) hc.fits
  | delete path keep force =>
    obtain ⟨old, hold⟩ := Data.deleteAt_isOk hc.wellFormed (Choice.ofBool keep).yes t
    cases hold.symm.trans h
  | refresh => cases h
  | snapshot => cases h

/-- What a call can come to: it succeeds, or it is refused, or it has contents copied that there is no
room to copy. -/
inductive Comes (room : Call → Data → Bool) (t : Data) (c : Call) : Prop
  | succeeds {u : Data} (fits : c.lacksRoom room t = false) (outcome : c.outcome room t = .ok u)
  | refused {fault : Fault} {kind : ErrorClass} (fits : c.lacksRoom room t = false)
      (outcome : c.outcome room t = .error fault) (same : (c.carry t).1 = t)
      (mem : kind ∈ c.refusals) (kind_eq : fault.kind? = some kind)
  | fails (lacks : c.lacksRoom room t = true) (outcome : c.outcome room t = .error .tooDeep)

theorem Allowed.comes (hc : c.Allowed t) (room : Call → Data → Bool) (hm : t.isMapping = true) :
    c.Comes room t := by
  cases hd : c.lacksRoom room t with
  | true => exact .fails hd (outcome_of_lacksRoom hd)
  | false =>
    cases hr : (c.carry t).2 with
    | ok u => exact .succeeds hd ((outcome_of_room hd).trans hr)
    | error fault =>
      obtain ⟨hsame, kind, hmem, hk⟩ := hc.refused hm hr
      exact .refused hd (outcome_of_error room hr) hsame hmem hk

theorem status_of_mem_refusals {kind : ErrorClass} (mem : kind ∈ c.refusals)
    (hk : fault.kind? = some kind) :
    statusOf (.error fault : Except Fault Data) ∈ c.statuses ∧
      statusOf (.error fault : Except Fault Data) ≠ 500 := by
  rw [statusOf, hk]
  cases c with
  | read path =>
    simp only [refusals, List.mem_cons, List.not_mem_nil, or_false] at mem
    rcases mem with rfl | rfl <;> simp [statuses]
  | write p =>
    simp only [refusals, List.mem_cons, List.not_mem_nil, or_false] at mem
    rcases mem with rfl | rfl <;> simp [statuses]
  | _ => cases mem

theorem Comes.status_mem (h : c.Comes room t) : statusOf (c.outcome room t) ∈ c.statuses := by
  cases h with
  | succeeds fits outcome =>
    rw [outcome]
    cases c <;> exact List.mem_cons_self
  | refused fits outcome same mem kind_eq =>
    rw [outcome]
    exact (status_of_mem_refusals mem kind_eq).1
  | fails lacks outcome =>
    rw [outcome]
    cases c with
    | read path => cases lacks
    | _ => simp [statuses, statusOf, Fault.kind?, Fault.storageError?]

/-- Nothing but a lack of room makes a call fail. -/
theorem Comes.status_eq_iff (h : c.Comes room t) :
    statusOf (c.outcome room t) = 500 ↔ c.lacksRoom room t = true := by
  cases h with
  | succeeds fits outcome => simp [outcome, fits, statusOf_ok]
  | refused fits outcome same mem kind_eq =>
    rw [outcome, fits]
    exact ⟨fun h => absurd h (status_of_mem_refusals mem kind_eq).2, nofun⟩
  | fails lacks outcome =>
    rw [outcome]
    exact ⟨fun _ => lacks, fun _ => rfl⟩

theorem Comes.of_ok_status (h : c.Comes room t) (hs : statusOf (c.outcome room t) = 200) :
    ∃ u, c.outcome room t = .ok u := by
  cases h with
  | succeeds fits outcome => exact ⟨_, outcome⟩
  | refused fits outcome same mem kind_eq => exact absurd (outcome ▸ hs) (statusOf_error_ne _)
  | fails lacks outcome => exact absurd (outcome ▸ hs) (statusOf_error_ne _)

theorem Comes.of_refused_status (h : c.Comes room t) (hs : statusOf (c.outcome room t) ≠ 200)
    (hs' : statusOf (c.outcome room t) ≠ 500) : (c.carry t).1 = t ∧ c.rise room t = 0 := by
  cases h with
  | succeeds fits outcome => exact absurd (outcome ▸ statusOf_ok _) hs
  | refused fits outcome same mem kind_eq => exact ⟨same, rise_of_error outcome⟩
  | fails lacks outcome => exact absurd (outcome ▸ rfl) hs'

end Call

end PathStore.Service
