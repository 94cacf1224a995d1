import PathStore.Proofs.Canonical
import PathStore.Proofs.Serving

/-!
# Runs of the service

A service is built over a mapping of JSON values (`App.seed`) and has a host answer requests one after
the other (`App.Served`).  What it holds in the end is what the operations of the calls make of that
mapping which were not refused, its version is the number of snapshots that calls answered with success
have installed, and every further call is answered accordingly (`served_answered`).  Of the host it is
only asked that it reads requests and sends replies as they are meant.
-/

namespace PathStore.Service

/-! ## Definitions -/

namespace App

/-- The values that the service is built over, in a hub of their own. -/
def seed (read : DocumentReader) (files : FileTree) (o : Options) : Except BuildFault Seed :=
  match o.seed? with
  | .error fault => .error (.contents fault)
  | .ok given => (given.elim (settingsSeed read files o) fun seed => ([], .ok seed)).2

/-- The number of the shared state. -/
def state (a : App) : Nat :=
  a.sharedState.2.toOption.getD 0

/-- What the shared state holds. -/
def data (a : App) : Data :=
  contents a.hub a.state

/-- The version of the shared state. -/
def version (a : App) : Nat :=
  (a.hub.state a.state).version

/-- The outcome of setting a value in the shared state. -/
def setOutcome (a : App) (p : Payload) : Except Fault Unit :=
  let (s, v) := a.hub.store.load p.value
  ({ a.hub with store := s }.setIn a.state (.text p.path) v).2

end App

/-- A call and what arrives in answer to it. -/
structure Exchange where
  call : Call
  answer : Answer

/-- What operations make of contents, those of calls answered with success and of calls that failed
because there was no room to copy the contents afterwards. -/
def contentsAfter (t : Data) (es : List Exchange) : Data :=
  es.foldl
    (fun t e => if e.answer.status = 200 ∨ e.answer.status = 500 then (e.call.carry t).1 else t) t

/-- The number of calls answered with success that install a snapshot. -/
def versionAfter (es : List Exchange) : Nat :=
  es.countP fun e => e.call.forces && e.answer.status == 200

/-- Requests that ask the storage for something, answered one after the other by a host, have led from
`a₀` to a service.  Each of the calls was allowed when it was made, and its reply was sent as it was
meant. -/
inductive App.Served {ρ ω : Type} (host : Host ρ ω) (a₀ : App) : List Exchange → App → Prop
  | start : Served host a₀ [] a₀
  | next {es : List Exchange} {a : App} {req : ρ} {call : Call} (run : Served host a₀ es a)
      (asks : host.decode req = .ok (.storage call)) (allowed : call.Allowed a.data)
      (conveyed : host.Conveys (call.reply host.hasRoom a.data a.version)) :
      Served host a₀ (es ++ [⟨call, host.arrive (a.handle host req).2.1⟩]) (a.handle host req).1

/-- A field of the contents of an answer. -/
def Answer.field? (answer : Answer) (name : Text) : Option Data :=
  match answer.contents with
  | some (.mapping _ es) => Entries.find? (.text name) es
  | _ => none

/-- How a call is answered by a service `a`, which is `a'` afterwards, where there is `room` to copy
contents.  The status is 500 exactly if there is none for a copy that the call needs; it tells else
whether the value was got or set. -/
def Call.IsAnswered (room : Call → Data → Bool) (a : App) (answer : Answer) (a' : App) (c : Call) :
    Prop :=
  (answer.status = 500 ↔ c.lacksRoom room a.data = true) ∧
    match c with
    | read path =>
      answer.status = statusOf (a.hub.getValue a.state (.text path)) ∧
        answer.status ∈ [200, 400, 404]
    | write p =>
      (answer.status ≠ 500 → answer.status = statusOf (a.setOutcome p)) ∧
        answer.status ∈ [200, 400, 409, 500] ∧
        (answer.status = 200 → answer.field? "version" = some (.leaf (.int a'.version))) ∧
        (answer.status = 400 ∨ answer.status = 409 → a'.data = a.data ∧ a'.version = a.version)
    | delete _ _ _ | refresh =>
      answer.status ∈ [200, 500] ∧
        (answer.status = 200 → answer.field? "version" = some (.leaf (.int a'.version)))
    | snapshot =>
      answer.status ∈ [200, 500] ∧
        (answer.status = 200 → answer.field? "version" = some (.leaf (.int a.version)) ∧
          answer.field? "data" = some a.data)

/-! ## Building -/

section
variable {ρ ω : Type} {host : Host ρ ω} {read : DocumentReader} {files : FileTree} {o : Options}
  {h h' : Hub} {root : Value} {a a₀ : App} {t : Data} {n r v : Nat} {es : List Exchange} {req : ρ}
  {call : Call}

namespace App

/-- A state that is provided over an unshared mapping of JSON values is shared. -/
theorem provide_shares {entry : LogEntry} (unshared : h.store.Unshared root)
    (mapping : (h.store.tree root).isMapping = true) (json : (h.store.tree root).IsJson)
    (provided : provide h root = (h', .ok (r, entry))) :
    Shares r h.states.size (h.store.tree root) 0 h' := by
  have hk : Store.Keeps h.store (h.store.addRegistry .empty).1 root := fun _ _ => rfl
  have htree : (h.store.addRegistry .empty).1.tree root = h.store.tree root :=
    hk.tree unshared.isFinite
  have hd : h.store.IsData root := unshared.isFinite.isData_iff.2 json.allAtoms
  obtain ⟨h₁, hprov, hshares⟩ := @provideShared_shares h.store.registries.size
    { h with store := (h.store.addRegistry .empty).1 } root
    (by simp [Store.addRegistry]) (hk.isFinite unshared.isFinite) (hk.isData hd)
    (hk.separate unshared.separate) (by rw [htree]; exact mapping) (by rw [htree, json.plain])
  rw [htree] at hshares
  unfold provide at provided
  simp only [hprov] at provided
  split at provided
  · cases provided
  · cases provided
    exact hshares

/-- What is built over an unshared mapping of JSON values holds it at version 0. -/
theorem build_serves (seeded : seed read files o = .ok (h, root)) (unshared : h.store.Unshared root)
    (mapping : (h.store.tree root).isMapping = true) (json : (h.store.tree root).IsJson)
    (built : (build read files o).2 = .ok a₀) :
    ∃ r, a₀.Serves r h.states.size (h.store.tree root) 0 := by
  unfold seed at seeded
  unfold build at built
  cases hseed : o.seed? with
  | error fault =>
    rw [hseed] at seeded
    cases seeded
  | ok given =>
    simp only [hseed] at seeded built
    generalize given.elim (settingsSeed read files o) (fun seed => ([], .ok seed)) = found at *
    obtain ⟨log, result⟩ := found
    cases seeded
    simp only at built
    split at built
    · cases built
    · next hprov =>
      cases built
      exact ⟨_, rfl, provide_shares unshared mapping json hprov, mapping⟩

/-! ## One request -/

theorem Serves.state (hs : a.Serves r n t v) : a.state = n := by
  rw [App.state, hs.sharedState]
  rfl

theorem Serves.data (hs : a.Serves r n t v) : a.data = t := by
  rw [App.data, hs.state, contents, hs.shares.tree]

theorem Serves.version (hs : a.Serves r n t v) : a.version = v := by
  rw [App.version, hs.state, hs.shares.version]

theorem Serves.setOutcome {p : Payload} (hs : a.Serves r n t v) (hj : p.value.IsJson) :
    (a.setOutcome p).map (fun _ => Data.nothing) = ((Call.write p).carry t).2 := by
  rw [App.setOutcome, hs.state]
  exact congrArg (Except.map fun _ => Data.nothing) (hs.shares.setIn hj p.path).2

theorem Serves.forget (hs : a.Serves r n t v) :
    App.Serves { a with hub := a.hub.forget } r n t v :=
  ⟨hs.registry, hs.shares.grows rfl rfl (Store.Grows.refl _), hs.isMapping⟩

/-- A call on the storage is carried out on the shared state. -/
theorem Serves.serve (hs : a.Serves r n t v) (room : Call → Data → Bool) (call : Call) :
    a.serve room (.storage call) = a.carryOut room n call := by
  rw [App.serve, hs.sharedState]

/-- A request for a call has it carried out, and its reply is sent. -/
theorem Serves.handle (hs : a.Serves r n t v) (asks : host.decode req = .ok (.storage call))
    (hc : call.Allowed t) :
    (a.handle host req).1.Serves r n (call.carry t).1 (v + call.rise host.hasRoom t) ∧
      (a.handle host req).2.1 = host.encode (call.reply host.hasRoom t v) := by
  obtain ⟨hserves, hreply⟩ := hs.forget.carryOut host.hasRoom hc
  rw [← hs.forget.serve host.hasRoom call] at hserves hreply
  unfold App.handle
  simp only [asks, hreply]
  exact ⟨hserves, trivial⟩

/-- What arrives in answer to a request for a call. -/
theorem Serves.arrive (hs : a.Serves r n t v) (asks : host.decode req = .ok (.storage call))
    (hc : call.Allowed t) (conveyed : host.Conveys (call.reply host.hasRoom t v)) :
    host.arrive (a.handle host req).2.1 = (call.reply host.hasRoom t v).answer := by
  rw [(hs.handle asks hc).2]
  exact conveyed

theorem contentsAfter_concat (t : Data) (es : List Exchange) (e : Exchange) :
    contentsAfter t (es ++ [e]) =
      if e.answer.status = 200 ∨ e.answer.status = 500 then (e.call.carry (contentsAfter t es)).1
      else contentsAfter t es := by
  rw [contentsAfter, List.foldl_concat]
  rfl

theorem versionAfter_concat (es : List Exchange) (e : Exchange) :
    versionAfter (es ++ [e]) =
      versionAfter es + (e.call.forces && e.answer.status == 200).toNat := by
  rw [versionAfter, List.countP_append, List.countP_singleton, versionAfter]
  cases e.call.forces && e.answer.status == 200 <;> rfl

/-- The status of an answer tells whether the operation of the call was done, and whether a version was
added. -/
theorem Serves.next (hs : a.Serves r n (contentsAfter t es) (versionAfter es))
    (asks : host.decode req = .ok (.storage call)) (hc : call.Allowed (contentsAfter t es))
    (conveyed : host.Conveys (call.reply host.hasRoom (contentsAfter t es) (versionAfter es))) :
    (a.handle host req).1.Serves r n
      (contentsAfter t (es ++ [⟨call, host.arrive (a.handle host req).2.1⟩]))
      (versionAfter (es ++ [⟨call, host.arrive (a.handle host req).2.1⟩])) := by
  obtain ⟨hserves, -⟩ := hs.handle asks hc
  have hstatus := congrArg Answer.status (hs.arrive asks hc conveyed)
  rw [Call.reply_status] at hstatus
  have hversion : versionAfter (es ++ [⟨call, host.arrive (a.handle host req).2.1⟩]) =
      versionAfter es + call.rise host.hasRoom (contentsAfter t es) := by
    rw [versionAfter_concat, Call.rise, hstatus, Bool.beq_eq_decide_eq,
      decide_eq_decide.2 statusOf_eq_iff, Bool.decide_coe]
  have hcontents : contentsAfter t (es ++ [⟨call, host.arrive (a.handle host req).2.1⟩]) =
      (call.carry (contentsAfter t es)).1 := by
    rw [contentsAfter_concat, hstatus]
    rcases hc.comes host.hasRoom hs.isMapping with
      ⟨-, hok⟩ | ⟨-, herr, hsame, -, -⟩ | ⟨-, hlacks⟩
    · exact if_pos (Or.inl (by rw [hok, statusOf_ok]))
    · split
      · rfl
      · exact hsame.symm
    · exact if_pos (Or.inr (by rw [hlacks]; rfl))
  rw [hcontents, hversion]
  exact hserves

/-! ## Runs -/

/-- In a run of the service its state holds what the answers say. -/
theorem Served.serves (hs : a₀.Serves r n t 0) (run : a₀.Served host es a) :
    a.Serves r n (contentsAfter t es) (versionAfter es) := by
  induction run with
  | start => exact hs
  | next run asks allowed conveyed ih =>
    rw [ih.data] at allowed conveyed
    rw [ih.version] at conveyed
    exact ih.next asks allowed conveyed

/-- A run goes on with a request for a call that is allowed. -/
theorem Served.concat (run : a₀.Served host es a) (hs : a.Serves r n t v)
    (asks : host.decode req = .ok (.storage call)) (hc : call.Allowed t)
    (conveyed : host.Conveys (call.reply host.hasRoom t v)) :
    a₀.Served host (es ++ [⟨call, (call.reply host.hasRoom t v).answer⟩]) (a.handle host req).1 ∧
      (a.handle host req).1.Serves r n (call.carry t).1 (v + call.rise host.hasRoom t) := by
  rw [← hs.arrive asks hc conveyed]
  exact ⟨run.next asks (hs.data.symm ▸ hc) (by rw [hs.data, hs.version]; exact conveyed),
    (hs.handle asks hc).1⟩

/-- How a call is answered while the service holds a plain mapping. -/
theorem Serves.isAnswered (hs : a.Serves r n t v) (asks : host.decode req = .ok (.storage call))
    (hc : call.Allowed t) (conveyed : host.Conveys (call.reply host.hasRoom t v)) :
    call.IsAnswered host.hasRoom a (host.arrive (a.handle host req).2.1) (a.handle host req).1 := by
  have hanswer := hs.arrive asks hc conveyed
  have hstatus := congrArg Answer.status hanswer
  rw [Call.reply_status] at hstatus
  have hserves := (hs.handle asks hc).1
  have hcomes := hc.comes host.hasRoom hs.isMapping
  have hmem := hcomes.status_mem
  have hroom := hcomes.status_eq_iff
  rw [← hstatus] at hmem hroom
  have hok : (host.arrive (a.handle host req).2.1).status = 200 → ∃ u,
      (host.arrive (a.handle host req).2.1).contents = some (call.shown t v u) ∧
        (a.handle host req).1.version = v + call.forces.toNat := fun h => by
    obtain ⟨u, hu⟩ := hcomes.of_ok_status (hstatus ▸ h)
    rw [hanswer, Call.reply_of_ok hu, hserves.version, Call.rise_of_ok hu]
    exact ⟨u, rfl, rfl⟩
  -- what follows only needs the status of the answer, its contents and what is held afterwards
  have hdata' := hserves.data
  have hversion' := hserves.version
  generalize host.arrive (a.handle host req).2.1 = answer at *
  generalize (a.handle host req).1 = a' at *
  refine ⟨by rw [hs.data]; exact hroom, ?_⟩
  cases call with
  | read path =>
    refine ⟨?_, hmem⟩
    rw [hs.state, hstatus, ← hs.getValue host.hasRoom path, statusOf_map]
  | write p =>
    refine ⟨fun h => ?_, hmem, fun h => ?_, fun h => ?_⟩
    · have hfits := Bool.eq_false_iff.2 fun hlacks => h (hroom.2 hlacks)
      rw [hstatus, Call.outcome_of_room hfits, ← hs.setOutcome hc.wellFormed.2, statusOf_map]
    · obtain ⟨u, hbody, hversion⟩ := hok h
      rw [Answer.field?, hbody, hversion]
      rfl
    · obtain ⟨hsame, hrise⟩ := hcomes.of_refused_status (hstatus ▸ by omega) (hstatus ▸ by omega)
      rw [hdata', hversion', hs.data, hs.version, hsame, hrise]
      exact ⟨rfl, rfl⟩
  | delete path keep force =>
    refine ⟨hmem, fun h => ?_⟩
    obtain ⟨u, hbody, hversion⟩ := hok h
    rw [Answer.field?, hbody, hversion]
    rfl
  | refresh =>
    refine ⟨hmem, fun h => ?_⟩
    obtain ⟨u, hbody, hversion⟩ := hok h
    rw [Answer.field?, hbody, hversion]
    rfl
  | snapshot =>
    refine ⟨hmem, fun h => ?_⟩
    obtain ⟨u, hbody, -⟩ := hok h
    rw [Answer.field?, Answer.field?, hbody, hs.version, hs.data]
    exact ⟨rfl, rfl⟩

end App

/-- A service that was built over an unshared mapping of JSON values, and was then asked for calls, holds
what the operations of those calls make of that mapping that were answered with success, or failed
because there was no room to copy the contents afterwards.  Its version is the number of calls answered
with success that install a snapshot.  A further call is answered as contents and version call for.
This is so on every host that reads the requests and sends the replies as they are meant. -/
theorem served_answered (seeded : App.seed read files o = .ok (h, root))
    (unshared : h.store.Unshared root) (mapping : (h.store.tree root).isMapping = true)
    (json : (h.store.tree root).IsJson) (built : (App.build read files o).2 = .ok a₀)
    (run : a₀.Served host es a) :
    a.data = contentsAfter (h.store.tree root) es ∧ a.version = versionAfter es ∧
      ∀ req call, host.decode req = .ok (.storage call) → call.Allowed a.data →
        host.Conveys (call.reply host.hasRoom a.data a.version) →
        host.arrive (a.handle host req).2.1 =
          (call.reply host.hasRoom a.data a.version).answer ∧
        call.IsAnswered host.hasRoom a (host.arrive (a.handle host req).2.1)
          (a.handle host req).1 := by
  obtain ⟨r, hs₀⟩ := App.build_serves seeded unshared mapping json built
  have hs := run.serves hs₀
  refine ⟨hs.data, hs.version, fun req call asks allowed conveyed => ?_⟩
  rw [hs.data] at allowed conveyed ⊢
  rw [hs.version] at conveyed ⊢
  exact ⟨hs.arrive asks allowed conveyed, hs.isAnswered asks allowed conveyed⟩

end

/-! ## Runs of a service over an empty mapping -/

/-- No settings, and an empty mapping to start with. -/
def Options.onEmpty : Options :=
  ⟨none, some (.mapping .plain []), Options.defaultTitle⟩

/-- A host that takes calls and sends answers as they are, with a stack for so many containers inside
one another. -/
def direct (most : Nat) : Host Call Answer where
  decode c := .ok (.storage c)
  encode := Reply.answer
  arrive := id
  hasRoom _ d := decide (d.depth ≤ most)

theorem direct_conveys (most : Nat) (reply : Reply) : (direct most).Conveys reply := rfl

theorem isJson_empty : Data.empty.IsJson :=
  .mapping (fun _ h => by cases h) List.nodup_nil (fun _ h => by cases h)

theorem build_onEmpty (read : DocumentReader) (files : FileTree) :
    ∃ a₀ h root r, (App.build read files .onEmpty).2 = .ok a₀ ∧
      App.seed read files .onEmpty = .ok (h, root) ∧ h.store.Unshared root ∧
      h.store.tree root = .empty ∧ a₀.Serves r h.states.size .empty 0 := by
  obtain ⟨a₀, h, root, built, seeded, unshared, htree⟩ :
      ∃ a₀ h root, (App.build read files .onEmpty).2 = .ok a₀ ∧
        App.seed read files .onEmpty = .ok (h, root) ∧ h.store.Unshared root ∧
        h.store.tree root = .empty :=
    ⟨_, _, _, rfl, rfl, by decide +kernel, rfl⟩
  obtain ⟨r, hs⟩ := App.build_serves seeded unshared (htree.symm ▸ rfl) (htree.symm ▸ isJson_empty)
    built
  exact ⟨a₀, h, root, r, built, seeded, unshared, htree, htree ▸ hs⟩

section
variable {most : Nat} {a a₀ : App} {t t' : Data} {n r v : Nat} {es : List Exchange} {p : Payload}

/-- A run on a direct host goes on with a write that succeeds, where there is room for the copies that
it needs. -/
theorem App.Served.stored (run : a₀.Served (direct most) es a) (hs : a.Serves r n t v)
    (hp : (Call.write p).WellFormed) (hcarry : (Call.write p).carry t = (t', .ok .nothing))
    (hroom : (Call.write p).lacksRoom (direct most).hasRoom t = false) :
    ∃ answer a', a₀.Served (direct most) (es ++ [⟨.write p, answer⟩]) a' ∧
      a'.Serves r n t' (v + p.force.toNat) ∧ answer.status = 200 := by
  have houtcome : (Call.write p).outcome (direct most).hasRoom t = .ok .nothing := by
    rw [Call.outcome_of_room hroom, hcarry]
  have asks : (direct most).decode (.write p) = .ok (.storage (.write p)) := rfl
  obtain ⟨run', hs'⟩ := run.concat hs asks ⟨hp, not_overflows (congrArg Prod.snd hcarry)⟩
    (direct_conveys most _)
  rw [hcarry, Call.rise_of_ok houtcome] at hs'
  refine ⟨_, _, run', hs', ?_⟩
  rw [Call.reply_status, houtcome]
  rfl

end

/-- A forced write that is refused leaves what an earlier one has put there. -/
theorem served_answered_after_conflict :
    ∃ a₀ a es, (App.build (fun _ => .ok .nothing) ⟨[]⟩ .onEmpty).2 = .ok a₀ ∧
      a₀.Served (direct 1000) es a ∧ es.map (fun e => e.answer.status) = [200, 409] ∧
      a.version = 1 ∧ (a.handle (direct 1000) .snapshot).2.1.status = 200 ∧
      (a.handle (direct 1000) .snapshot).2.1.field? "data" =
        some (.mapping .plain [(.text "a", .leaf (.int 1))]) := by
  obtain ⟨a₀, h, root, r, built, seeded, unshared, htree, hs₀⟩ :=
    build_onEmpty (fun _ => .ok .nothing) ⟨[]⟩
  let first : Payload := ⟨"a", .leaf (.int 1), true⟩
  let second : Payload := ⟨"a.b", .leaf (.int 2), true⟩
  have hfirst : (Call.write first).carry .empty =
      (.mapping .plain [(.text "a", .leaf (.int 1))], .ok .nothing) := by cbv
  have hsecond : (Call.write second).carry (.mapping .plain [(.text "a", .leaf (.int 1))]) =
      (.mapping .plain [(.text "a", .leaf (.int 1))],
        .error (.rawValue [.key "a", .key "b"] [.key "a"] (.key "b"))) := by cbv
  have run₀ : a₀.Served (direct 1000) [] a₀ := .start
  obtain ⟨answer₁, a₁, run₁, hs₁, hstatus₁⟩ := run₀.stored hs₀ ⟨by decide +kernel, .leaf rfl⟩ hfirst
    (by rw [Call.lacksRoom, hfirst]; rfl)
  have houtcome₂ := Call.outcome_of_error (direct 1000).hasRoom (congrArg Prod.snd hsecond)
  have allowed₂ : (Call.write second).Allowed (.mapping .plain [(.text "a", .leaf (.int 1))]) := by
    refine ⟨⟨by decide +kernel, .leaf rfl⟩, ?_⟩
    rw [hsecond]
    rintro (h | h) <;> cases h
  have asks₂ : (direct 1000).decode (.write second) = .ok (.storage (.write second)) := rfl
  obtain ⟨run₂, hs₂⟩ := run₁.concat hs₁ asks₂ allowed₂ (direct_conveys 1000 _)
  rw [hsecond, Call.rise_of_error houtcome₂] at hs₂
  have hroom : Call.snapshot.lacksRoom (direct 1000).hasRoom
      (.mapping .plain [(.text "a", .leaf (.int 1))]) = false := by decide
  obtain ⟨-, -, hanswer⟩ := served_answered seeded unshared (htree.symm ▸ rfl)
    (htree.symm ▸ isJson_empty) built run₂
  obtain ⟨hwhole, -, -, hfields⟩ := hanswer .snapshot .snapshot rfl ⟨trivial, not_overflows rfl⟩
    (direct_conveys 1000 _)
  rw [hs₂.data, Call.reply_of_ok (Call.outcome_of_room hroom)] at hwhole
  have hstatus := congrArg Answer.status hwhole
  rw [hs₂.data] at hfields
  refine ⟨a₀, _, _, built, run₂, ?_, hs₂.version, hstatus, (hfields hstatus).2⟩
  rw [List.nil_append, List.map_append, List.map_singleton, List.map_singleton, hstatus₁,
    Call.reply_status, houtcome₂]
  rfl

/-! ### Contents that are too deep -/

/-- So many mappings inside one another, and a number in the innermost. -/
def nested : Nat → Data
  | 0 => .leaf (.int 1)
  | n + 1 => .mapping .plain [(.text "x", nested n)]

/-- The path that leads through so many of them. -/
def nestedPath (n : Nat) : Path :=
  List.replicate n (.key "x")

theorem nested_depth (n : Nat) : (nested n).depth = n := by
  induction n with
  | zero => rfl
  | succ n ih => simp [nested, Data.depth, Data.depthOfEntries, ih]

/-- Writing along the path makes the mappings. -/
theorem writeFrom_nested (n : Nat) (path before : Path) :
    Data.empty.writeFrom path before (.leaf (.int 1)) (nestedPath (n + 1)) =
      (nested (n + 1), .ok ()) := by
  induction n generalizing before with
  | zero => rfl
  | succ n ih =>
    have hstep : Data.empty.writeFrom path before (.leaf (.int 1)) (nestedPath (n + 2)) =
        Data.empty.update (.key "x") (Data.empty.writeFrom path (before ++ [.key "x"])
          (.leaf (.int 1)) (nestedPath (n + 1))) := rfl
    rw [hstep, ih]
    rfl

theorem nestedPath_isCanonical (n : Nat) : (nestedPath n).IsCanonical := by
  intro seg hseg
  rw [List.eq_of_mem_replicate hseg]
  decide

/-- There is nothing blank in the spelling of the path. -/
theorem trim_nestedPath (n : Nat) : Text.trim (nestedPath n).spelling = (nestedPath n).spelling := by
  have hafter (n : Nat) : ∀ c ∈ Path.spellingAfter true (nestedPath n),
      Text.isBlank c = false := by
    induction n with
    | zero => exact nofun
    | succ n ih => exact List.forall_mem_cons.2 ⟨by decide, List.forall_mem_cons.2 ⟨by decide, ih⟩⟩
  refine Text.trim_eq_self ?_
  cases n with
  | zero => exact nofun
  | succ n => exact List.forall_mem_cons.2 ⟨by decide, hafter n⟩

/-- Setting a number under the spelling of the path makes the mappings. -/
theorem setAt_nested (n : Nat) :
    Data.empty.setAt (.text (nestedPath (n + 1)).spelling) (.leaf (.int 1)) =
      (nested (n + 1), .ok ()) := by
  have hne : (nestedPath (n + 1)).spelling ≠ [] := List.cons_ne_nil _ _
  have hparse : Path.read (nestedPath (n + 1)).spelling = .ok (nestedPath (n + 1)) := by
    rw [Path.read, Path.parse_spelling (nestedPath_isCanonical _)]
    rfl
  have hpath : (Atom.text (nestedPath (n + 1)).spelling).path = .ok (nestedPath (n + 1)) := by
    simp only [Atom.path, trim_nestedPath, hne, hparse, if_false]
    exact if_neg (List.cons_ne_nil _ _)
  simp only [Data.setAt, hpath]
  exact writeFrom_nested n _ _

/-- None of its runs is made of digits. -/
theorem readable_nestedPath (n : Nat) : Text.Readable (nestedPath n).spelling := by
  intro run hrun hdigits
  rw [trim_nestedPath, Path.runs_spelling (nestedPath_isCanonical n)] at hrun
  obtain ⟨seg, hseg, rfl⟩ := List.mem_map.1 hrun
  rw [List.eq_of_mem_replicate hseg] at hdigits
  exact absurd hdigits (by decide)

/-- A number is accepted below so many mappings that there is no room to copy them, and the contents
cannot be shown after that. -/
theorem snapshot_of_nested {most n : Nat} (hn : most ≤ n) :
    ∃ a₀ a es, (App.build (fun _ => .ok .nothing) ⟨[]⟩ .onEmpty).2 = .ok a₀ ∧
      a₀.Served (direct most) es a ∧
      es.map (fun e => e.call) = [.write ⟨(nestedPath (n + 1)).spelling, .leaf (.int 1), false⟩] ∧
      es.map (fun e => e.answer.status) = [200] ∧ a.data = nested (n + 1) ∧
      Call.snapshot.Allowed a.data ∧ (a.handle (direct most) .snapshot).2.1.status = 500 := by
  obtain ⟨a₀, h, root, r, built, -, -, -, hs₀⟩ := build_onEmpty (fun _ => .ok .nothing) ⟨[]⟩
  let deep : Payload := ⟨(nestedPath (n + 1)).spelling, .leaf (.int 1), false⟩
  have hdeep : (Call.write deep).carry .empty = (nested (n + 1), .ok .nothing) :=
    congrArg (fun r : Data × Except Fault Unit => (r.1, r.2.map fun _ => Data.nothing))
      (setAt_nested n)
  have run₀ : a₀.Served (direct most) [] a₀ := .start
  -- the write is not forced, so nothing is copied after it
  obtain ⟨answer, a, run, hs, hstatus⟩ :=
    run₀.stored hs₀ ⟨readable_nestedPath (n + 1), .leaf rfl⟩ hdeep rfl
  have allowed : Call.snapshot.Allowed (nested (n + 1)) := ⟨trivial, not_overflows rfl⟩
  have hlacks : Call.snapshot.lacksRoom (direct most).hasRoom (nested (n + 1)) = true := by
    rw [Call.snapshot_lacksRoom]
    simp only [direct, nested_depth, Bool.not_eq_true', decide_eq_false_iff_not]
    omega
  have asks : (direct most).decode .snapshot = .ok (.storage .snapshot) := rfl
  have harrive := hs.arrive asks allowed (direct_conveys most _)
  rw [Call.reply_of_error (Call.outcome_of_lacksRoom hlacks)] at harrive
  refine ⟨a₀, a, _, built, run, rfl, ?_, hs.data, hs.data.symm ▸ allowed,
    congrArg Answer.status harrive⟩
  rw [List.nil_append, List.map_singleton, hstatus]

/-- A thousand calls inside one another have no room for a copy of more than a thousand mappings. -/
theorem snapshot_of_deep_contents :
    ∃ a₀ a es, (App.build (fun _ => .ok .nothing) ⟨[]⟩ .onEmpty).2 = .ok a₀ ∧
      a₀.Served (direct 1000) es a ∧
      es.map (fun e => e.call) = [.write ⟨(nestedPath 1200).spelling, .leaf (.int 1), false⟩] ∧
      es.map (fun e => e.answer.status) = [200] ∧ a.data = nested 1200 ∧
      Call.snapshot.Allowed a.data ∧ (a.handle (direct 1000) .snapshot).2.1.status = 500 :=
  @snapshot_of_nested 1000 1199 (by decide)

end PathStore.Service
