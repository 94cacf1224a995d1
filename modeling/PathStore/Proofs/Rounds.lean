import Mathlib
import PathStore.Proofs.Snapshots

/-!
# Rounds inside rounds

While listeners run, the store can change without any effect on states, listeners and the record of
calls (`Hub.Quiet`), subscriptions come and go, scripts are taken, and further rounds are run.  A
relation between hubs that lasts over the first and over further rounds lasts over everything a
listener does but subscribing and unsubscribing (`Lasting.perform`).  One such relation says how a
later hub differs from an earlier one (`Hub.Later`): no storage is lost, no script is added, and
what is delivered in between are storages that the earlier hub did not have.  Every nested round
takes a script, so the depth of nesting does not matter as soon as it is as large as the number of
scripts (`Hub.roundTo_eq`), and listeners refresh states as everybody does (`Hub.refresh_eq`).
-/

namespace PathStore

/-! ## Scripts -/

/-- The action changes no subscription. -/
def Action.Steady : Action → Prop
  | .subscribe _ _ => False
  | .unsubscribe _ => False
  | _ => True

/-- All actions of the script, whatever their outcomes, are of a kind. -/
inductive Script.Only (P : Action → Prop) : Script → Prop
  | done : Script.Only P .done
  | fail : Script.Only P .fail
  | act {action : Action} {next : Except Fault Value → Script} (action_of : P action)
      (next_of : ∀ outcome, Script.Only P (next outcome)) : Script.Only P (.act action next)

theorem Script.only_true (script : Script) : script.Only fun _ => True := by
  induction script with
  | done => exact .done
  | fail => exact .fail
  | act action next ih => exact .act trivial ih

namespace Hub

variable {h h' h'' : Hub}

/-! ## What changes the store only -/

/-- States, listeners and the record of calls are the same in both hubs, and no storage is lost. -/
structure Quiet (h h' : Hub) : Prop where
  states : h'.states = h.states
  listeners : h'.listeners = h.listeners
  events : h'.events = h.events
  storages : h.store.storages.size ≤ h'.store.storages.size

theorem Quiet.state (q : Quiet h h') (n : Nat) : h'.state n = h.state n := by
  rw [Hub.state, Hub.state, q.states]

theorem Quiet.listener (q : Quiet h h') (n : Nat) : h'.listener n = h.listener n := by
  rw [Hub.listener, Hub.listener, q.listeners]

theorem apply_quiet {α : Type} {e : Effect α} (he : h.store.SameObjects e.store) :
    Quiet h (h.apply e).1 :=
  ⟨rfl, rfl, rfl, by rw [apply, he.storages]⟩

theorem build_quiet (h : Hub) (t : Template) : Quiet h (h.build t).1 :=
  apply_quiet (Store.build_sameObjects h.names h.store t)

theorem setIn_quiet (h : Hub) (n : Nat) (key new : Value) : Quiet h (h.setIn n key new).1 :=
  apply_quiet ((h.state n).storage.set_sameObjects h.store key new)

theorem deleteIn_quiet (h : Hub) (n : Nat) (key : Value) (keep : Choice) :
    Quiet h (h.deleteIn n key keep).1 :=
  apply_quiet ((h.state n).storage.delete_sameObjects h.store key keep)

theorem noteFailure_quiet (h : Hub) (subscriber : Value) :
    Quiet h (h.noteFailure subscriber).1 := by
  unfold noteFailure
  cases h.store.shown subscriber <;> exact ⟨rfl, rfl, rfl, Nat.le_refl _⟩

end Hub

/-! ## Relations that last -/

/-- Whatever changes the store only leads from a hub to a related one, and so do two steps that do
one after the other. -/
structure Lasting (R : Hub → Hub → Prop) : Prop where
  quiet : ∀ {h h' : Hub}, h.Quiet h' → R h h'
  trans : ∀ {h h' h'' : Hub}, R h h' → R h' h'' → R h h''

namespace Lasting

open Hub

variable {R : Hub → Hub → Prop} {again : Refresher} {h : Hub} {home : Nat} {given : Storage}

theorem refl (hR : Lasting R) (h : Hub) : R h h :=
  hR.quiet ⟨rfl, rfl, rfl, Nat.le_refl _⟩

theorem buildTwo (hR : Lasting R) (h : Hub) (t u : Template) : R h (h.buildTwo t u).1 := by
  have ht := hR.quiet (h.build_quiet t)
  unfold Hub.buildTwo
  rcases hbuild : h.build t with ⟨h₁, _ | v⟩ <;> rw [hbuild] at ht
  · exact ht
  · have hu := hR.quiet (h₁.build_quiet u)
    dsimp only
    rcases hbuild' : h₁.build u with ⟨h₂, _ | w⟩ <;> rw [hbuild'] at hu <;> exact hR.trans ht hu

theorem answerAfter (hR : Lasting R) {α : Type} (hagain : ∀ h, R h (again h home).1) (force : Bool)
    (h : Hub) (answer : α) : R h (answerAfter again home force h answer).1 := by
  cases force with
  | false => exact hR.refl h
  | true =>
    have hround := hagain h
    simp only [Hub.answerAfter, if_true]
    rcases hr : again h home with ⟨h₁, _ | _⟩ <;> rw [hr] at hround <;> exact hround

theorem setWith (hR : Lasting R) (hagain : ∀ h, R h (again h home).1) (h : Hub) (key new : Value)
    (force : Bool) : R h (h.setWith again home key new force).1 := by
  have hset := hR.quiet (h.setIn_quiet home key new)
  unfold Hub.setWith
  rcases hr : h.setIn home key new with ⟨h₁, _ | _⟩ <;> rw [hr] at hset
  · exact hset
  · exact hR.trans hset (hR.answerAfter hagain force h₁ ())

theorem deleteWith (hR : Lasting R) (hagain : ∀ h, R h (again h home).1) (h : Hub) (key : Value)
    (keep : Choice) (force : Bool) : R h (h.deleteWith again home key keep force).1 := by
  have hdelete := hR.quiet (h.deleteIn_quiet home key keep)
  unfold Hub.deleteWith
  rcases hr : h.deleteIn home key keep with ⟨h₁, _ | removed⟩ <;> rw [hr] at hdelete
  · exact hdelete
  · exact hR.trans hdelete (hR.answerAfter hagain force h₁ removed)

/-- What lasts over further rounds lasts over every action that changes no subscription. -/
theorem perform (hR : Lasting R) (hagain : ∀ h, R h (again h home).1) {action : Action}
    (ha : action.Steady) : R h (perform again home given h action).1 := by
  cases action with
  | set key new force =>
    have hbuild := hR.buildTwo h key new
    simp only [Hub.perform]
    rcases hr : h.buildTwo key new with ⟨h₁, _ | ⟨key, new⟩⟩ <;> rw [hr] at hbuild
    · exact hbuild
    · exact hR.trans hbuild (hR.setWith hagain h₁ key new force)
  | delete key keep force =>
    have hbuild := hR.quiet (h.build_quiet key)
    simp only [Hub.perform]
    rcases hr : h.build key with ⟨h₁, _ | key⟩ <;> rw [hr] at hbuild
    · exact hbuild
    · exact hR.trans hbuild (hR.deleteWith hagain h₁ key keep force)
  | write key new =>
    have hbuild := hR.buildTwo h key new
    simp only [Hub.perform]
    rcases hr : h.buildTwo key new with ⟨h₁, _ | ⟨key, new⟩⟩ <;> rw [hr] at hbuild
    · exact hbuild
    · exact hR.trans hbuild (hR.quiet (apply_quiet (given.set_sameObjects h₁.store key new)))
  | refresh => exact hagain h
  | subscribe listener keptAs => exact ha.elim
  | unsubscribe keptAs => exact ha.elim

/-- What lasts over every action of a kind lasts over scripts of such actions. -/
theorem run (hR : Lasting R) {P : Action → Prop} {act : Hub → Action → Hub × Except Fault Value}
    (hact : ∀ h action, P action → R h (act h action).1) {script : Script} (hs : script.Only P)
    (h : Hub) : R h (run act script h).1 := by
  induction hs generalizing h with
  | done => exact hR.refl h
  | fail => exact hR.refl h
  | act action_of next_of ih =>
    unfold Hub.run
    exact hR.trans (hact h _ action_of) (ih _ _)

end Lasting

/-! ## Later hubs -/

namespace Hub

variable {h h' h'' : Hub} {again again' : Refresher}

theorem pending_eq (h : Hub) :
    h.pending = (h.listeners.toList.map fun l => l.scripts.length).sum := by
  rw [pending, List.sum_eq_foldl, List.foldl_map]

theorem Quiet.pending (q : Quiet h h') : h'.pending = h.pending := by
  rw [pending_eq, pending_eq, q.listeners]

/-- The later hub has lost no storage, its listeners have no more scripts, and all that has been
delivered since are storages numbered from `first` on. -/
structure Since (first : Nat) (h h' : Hub) : Prop where
  storages : h.store.storages.size ≤ h'.store.storages.size
  pending : h'.pending ≤ h.pending
  events : ∃ new, h'.events = h.events ++ new ∧
    ∀ d, Event.delivery d ∈ new → first ≤ d.given.number

/-- A later hub: what has been delivered since are storages that the earlier hub did not have. -/
abbrev Later (h h' : Hub) : Prop := Since h.store.storages.size h h'

theorem Since.trans {first : Nat} (l : Since first h h') (l' : Since first h' h'') :
    Since first h h'' := by
  obtain ⟨new, hnew, hgiven⟩ := l.events
  obtain ⟨new', hnew', hgiven'⟩ := l'.events
  refine ⟨l.storages.trans l'.storages, l'.pending.trans l.pending, new ++ new', ?_, ?_⟩
  · rw [hnew', hnew, List.append_assoc]
  · intro d hd
    rcases List.mem_append.1 hd with hd | hd
    · exact hgiven d hd
    · exact hgiven' d hd

theorem Since.mono {first first' : Nat} (l : Since first h h') (hle : first' ≤ first) :
    Since first' h h' := by
  obtain ⟨new, hnew, hgiven⟩ := l.events
  exact ⟨l.storages, l.pending, new, hnew, fun d hd => hle.trans (hgiven d hd)⟩

theorem Quiet.since (q : Quiet h h') (first : Nat) : Since first h h' :=
  ⟨q.storages, q.pending.le, [], by rw [q.events, List.append_nil], nofun⟩

theorem later_lasting : Lasting Later where
  quiet q := q.since _
  trans l l' := l.trans (l'.mono l.storages)

theorem Later.refl (h : Hub) : Later h h :=
  later_lasting.refl h

/-- Taking a script leaves states, store and the record as they are. -/
theorem takeScript_frame (h : Hub) (k : Nat) :
    (h.takeScript k).1.states = h.states ∧ (h.takeScript k).1.store = h.store ∧
      (h.takeScript k).1.events = h.events := by
  unfold takeScript
  cases (h.listener k).scripts <;> exact ⟨rfl, rfl, rfl⟩

/-- A listener that has a script left uses it up. -/
theorem takeScript_pending_lt {k : Nat} (hs : (h.listener k).scripts ≠ []) :
    (h.takeScript k).1.pending < h.pending := by
  have hk : k < h.listeners.size := by
    by_contra hk
    have hdefault : h.listener k = default := by simp [listener, hk]
    exact hs (by rw [hdefault]; rfl)
  cases hsc : (h.listener k).scripts with
  | nil => exact absurd hsc hs
  | cons script rest =>
    obtain ⟨l₁, l, l₂, hlist, hlen, hmod⟩ :=
      List.exists_of_modify (fun l : Listener => { l with scripts := rest })
        (show k < h.listeners.toList.length from hk)
    have hl : l.scripts = script :: rest := by
      have hget : h.listeners[k]? = some l := by
        rw [← Array.getElem?_toList, hlist, ← hlen]
        simp
      rw [listener, hget] at hsc
      exact hsc
    have hafter : (h.takeScript k).1.listeners.toList =
        l₁ ++ { l with scripts := rest } :: l₂ := by
      rw [takeScript, hsc, ← hmod]
      exact Array.toList_modify
    rw [pending_eq, pending_eq, hafter, hlist]
    simp only [List.map_append, List.map_cons, List.sum_append, List.sum_cons, hl, List.length_cons]
    omega

theorem takeScript_pending_le (h : Hub) (k : Nat) : (h.takeScript k).1.pending ≤ h.pending := by
  by_cases hs : (h.listener k).scripts = []
  · rw [takeScript, hs]
  · exact (takeScript_pending_lt hs).le

theorem takeScript_later (h : Hub) (k : Nat) : Later h (h.takeScript k).1 := by
  obtain ⟨-, hstore, hevents⟩ := h.takeScript_frame k
  exact ⟨by rw [hstore], h.takeScript_pending_le k, [], by rw [hevents, List.append_nil], nofun⟩

theorem callOff_later (h : Hub) (v : Value) : Later h (h.callOff v).1 := by
  have hoff : ∀ k, Later h (h.unsubscribe k) := fun k => by
    unfold unsubscribe
    cases h.subscriptions[k]? with
    | none => exact .refl h
    | some sub => exact ⟨Nat.le_refl _, Nat.le_refl _, [], (List.append_nil _).symm, nofun⟩
  unfold callOff
  split
  · exact hoff _
  · exact .refl h

/-- Whatever a listener does leads to a later hub if further rounds do. -/
theorem perform_later {home : Nat} {given : Storage} (hagain : ∀ h, Later h (again h home).1)
    (h : Hub) (action : Action) : Later h (perform again home given h action).1 := by
  by_cases ha : action.Steady
  · exact later_lasting.perform hagain ha
  · cases action with
    | subscribe listener keptAs =>
      simp only [perform]
      cases h.named listener with
      | error fault => exact .refl h
      | ok v => exact ⟨Nat.le_refl _, Nat.le_refl _, [], (List.append_nil _).symm, nofun⟩
    | unsubscribe keptAs =>
      simp only [perform]
      cases h.named keptAs with
      | error fault => exact .refl h
      | ok v => exact h.callOff_later v
    | _ => exact absurd trivial ha

theorem run_later {home : Nat} {given : Storage} (hagain : ∀ h, Later h (again h home).1)
    (script : Script) (h : Hub) : Later h (run (perform again home given) script h).1 :=
  later_lasting.run (fun h action _ => perform_later hagain h action) script.only_true h

/-! ## One call and one round -/

/-- The number of the listener that a value refers to. -/
def listener? : Value → Option Nat
  | .atom (.object (.listener _) k) _ => some k
  | _ => none

/-- The hub when it has been recorded that listener `k` is called with the storage `given`. -/
def calling (h : Hub) (given : Storage) (k : Nat) : Hub :=
  { h with events := h.events ++ [Event.delivery (h.deliveryOf given k)] }

/-- Calling a listener is recording the call and running the next script. -/
theorem call_eq {given : Storage} {v : Value} {k : Nat} (hv : listener? v = some k) :
    h.call again given v = run (perform again (h.listener k).home given)
      ((h.calling given k).takeScript k).2 ((h.calling given k).takeScript k).1 := by
  unfold listener? at hv
  split at hv
  · cases hv
    rfl
  · cases hv

/-- What is no listener cannot be called. -/
theorem call_of_none {given : Storage} {v : Value} (hv : listener? v = none) :
    h.call again given v = (h, true) := by
  unfold listener? at hv
  split at hv
  · cases hv
  · next hne => exact call.eq_2 again given h v hne

/-- A call that is recorded and what the listener does then. -/
theorem call_later (hagain : ∀ n h, Later h (again h n).1) {given : Storage} {v : Value} {k : Nat}
    (hv : listener? v = some k) : Later (h.calling given k) (h.call again given v).1 := by
  rw [call_eq hv]
  exact later_lasting.trans (takeScript_later _ k) (run_later (hagain _) _ _)

theorem call_since (hagain : ∀ n h, Later h (again h n).1) {given : Storage} {first : Nat}
    (hgiven : first ≤ given.number) (hfirst : first ≤ h.store.storages.size) (v : Value) :
    Since first h (h.call again given v).1 := by
  cases hv : listener? v with
  | none =>
    rw [call_of_none hv]
    exact (Later.refl h).mono hfirst
  | some k =>
    have hcalling : Since first h (h.calling given k) := by
      refine ⟨Nat.le_refl _, Nat.le_refl _, _, rfl, fun d hd => ?_⟩
      cases List.mem_singleton.1 hd
      exact hgiven
    exact hcalling.trans ((call_later hagain hv).mono hfirst)

theorem deliver_since (hagain : ∀ n h, Later h (again h n).1) {given : Storage} {first : Nat}
    (hgiven : first ≤ given.number) (vs : List Value) (hfirst : first ≤ h.store.storages.size) :
    Since first h (deliver again given h vs).1 := by
  induction vs generalizing h with
  | nil => exact (Later.refl h).mono hfirst
  | cons v vs ih =>
    have hcall := call_since hagain hgiven hfirst v
    rw [deliver]
    rcases hc : h.call again given v with ⟨h₁, _ | _⟩ <;> rw [hc] at hcall <;>
      have hfirst₁ := hfirst.trans hcall.storages
    · exact hcall.trans (ih hfirst₁)
    · have hnote := (h₁.noteFailure_quiet v).since first
      dsimp only
      rcases hr : h₁.noteFailure v with ⟨h₂, _ | _⟩ <;> rw [hr] at hnote
      · exact hcall.trans hnote
      · exact (hcall.trans hnote).trans (ih (hfirst₁.trans hnote.storages))

/-- Installing either does nothing, there being no copy, or gives a state a storage that has not
been there before. -/
theorem install_cases (h : Hub) (n : Nat) :
    (∃ fault, h.store.clone (h.state n).storage.root = .error fault ∧
        h.install n = (h, .error fault)) ∨
      ∃ h₁ st, h.install n = (h₁, .ok st) ∧ h₁.listeners = h.listeners ∧ h₁.events = h.events ∧
        h₁.states = h.states.modify n (fun s =>
          { s with storage := st, version := (h.state n).version + 1 }) ∧
        h.store.storages.size ≤ st.number ∧ st.number < h₁.store.storages.size := by
  cases hc : h.store.clone (h.state n).storage.root with
  | error fault => exact Or.inl ⟨fault, rfl, install_of_error hc⟩
  | ok p =>
    obtain ⟨s, w⟩ := p
    refine Or.inr ⟨_, _, install_of_ok hc, rfl, rfl, rfl, ?_, ?_⟩
    · exact Store.cloneTo_storages_le hc
    · show s.storages.size < (s.storages.push w).size
      rw [Array.size_push]
      omega

/-- A round leads to a later hub if further rounds do. -/
theorem round_later (hagain : ∀ n h, Later h (again h n).1) (n : Nat) (h : Hub) :
    Later h (round again h n).1 := by
  unfold round
  rcases h.install_cases n with ⟨fault, -, hi⟩ | ⟨h₁, st, hi, hl, he, -, hst, hlt⟩
  · rw [hi]
    exact .refl h
  · have hle : h.store.storages.size ≤ h₁.store.storages.size := by omega
    have hinstall : Later h h₁ :=
      ⟨hle, by rw [pending_eq, pending_eq, hl], [], by rw [he, List.append_nil], nofun⟩
    have hround := hinstall.trans (deliver_since hagain hst (h₁.state n).subscribers hle)
    rw [hi]
    dsimp only
    rcases hd : deliver again st h₁ (h₁.state n).subscribers with ⟨h₂, _ | _⟩ <;>
      rw [hd] at hround <;> exact hround

theorem roundTo_later (depth n : Nat) (h : Hub) : Later h (roundTo depth h n).1 := by
  induction depth generalizing n h with
  | zero => exact round_later (fun _ h => .refl h) n h
  | succ depth ih => exact round_later ih n h

/-- A refreshed hub is a later one. -/
theorem refresh_later (n : Nat) (h : Hub) : Later h (h.refresh n).1 :=
  roundTo_later h.pending n h

/-! ## Nesting deep enough -/

/-- Both ways of running further rounds do the same in hubs with few scripts. -/
def AgreeTo (bound : Nat) (again again' : Refresher) : Prop :=
  ∀ n h, h.pending ≤ bound → again h n = again' h n

variable {bound : Nat}

theorem answerAfter_congr {α : Type} (hagree : AgreeTo bound again again') (hb : h.pending ≤ bound)
    (n : Nat) (force : Bool) (answer : α) :
    answerAfter again n force h answer = answerAfter again' n force h answer := by
  unfold answerAfter
  rw [hagree n h hb]

theorem setWith_congr (hagree : AgreeTo bound again again') (hb : h.pending ≤ bound) (n : Nat)
    (key new : Value) (force : Bool) :
    h.setWith again n key new force = h.setWith again' n key new force := by
  have hset := (h.setIn_quiet n key new).pending
  unfold setWith
  rcases hr : h.setIn n key new with ⟨h₁, _ | _⟩
  · rfl
  · rw [hr] at hset
    exact answerAfter_congr hagree (hset.trans_le hb) n force ()

theorem deleteWith_congr (hagree : AgreeTo bound again again') (hb : h.pending ≤ bound) (n : Nat)
    (key : Value) (keep : Choice) (force : Bool) :
    h.deleteWith again n key keep force = h.deleteWith again' n key keep force := by
  have hdelete := (h.deleteIn_quiet n key keep).pending
  unfold deleteWith
  rcases hr : h.deleteIn n key keep with ⟨h₁, _ | removed⟩
  · rfl
  · rw [hr] at hdelete
    exact answerAfter_congr hagree (hdelete.trans_le hb) n force removed

theorem perform_congr (hagree : AgreeTo bound again again') (hb : h.pending ≤ bound) (home : Nat)
    (given : Storage) (action : Action) :
    perform again home given h action = perform again' home given h action := by
  cases action with
  | set key new force =>
    have hbuild := (later_lasting.buildTwo h key new).pending
    simp only [perform]
    rcases hr : h.buildTwo key new with ⟨h₁, _ | ⟨key, new⟩⟩
    · rfl
    · rw [hr] at hbuild
      dsimp only
      rw [setWith_congr hagree (hbuild.trans hb)]
  | delete key keep force =>
    have hbuild := (h.build_quiet key).pending
    simp only [perform]
    rcases hr : h.build key with ⟨h₁, _ | key⟩
    · rfl
    · rw [hr] at hbuild
      exact deleteWith_congr hagree (hbuild.trans_le hb) home key keep force
  | refresh =>
    simp only [perform]
    rw [hagree home h hb]
  | _ => rfl

theorem run_congr (hagree : AgreeTo bound again again') (hagain : ∀ n h, Later h (again h n).1)
    (home : Nat) (given : Storage) (script : Script) (hb : h.pending ≤ bound) :
    run (perform again home given) script h = run (perform again' home given) script h := by
  induction script generalizing h with
  | done => rfl
  | fail => rfl
  | act action next ih =>
    have hact : (perform again home given h action).1.pending ≤ h.pending :=
      (perform_later (hagain home) h action).pending
    rw [run, run, ← perform_congr hagree hb home given action]
    exact ih _ (hact.trans hb)

/-- A call does not depend on how rounds are run in hubs with as many scripts as there are before
it: one is used up first. -/
theorem call_congr (hagree : ∀ n g, g.pending < h.pending → again g n = again' g n)
    (hagain : ∀ n h, Later h (again h n).1) (given : Storage) (v : Value) :
    h.call again given v = h.call again' given v := by
  cases hv : listener? v with
  | none => rw [call_of_none hv, call_of_none hv]
  | some k =>
    rw [call_eq hv, call_eq hv]
    by_cases hs : ((h.calling given k).listener k).scripts = []
    · have hdone : (h.calling given k).takeScript k = (h.calling given k, .done) := by
        rw [takeScript, hs]
      rw [hdone]
      rfl
    · have hlt : ((h.calling given k).takeScript k).1.pending < h.pending :=
        takeScript_pending_lt hs
      have hagree' : AgreeTo ((h.calling given k).takeScript k).1.pending again again' :=
        fun n g hg => hagree n g (hg.trans_lt hlt)
      exact run_congr hagree' hagain _ given _ (Nat.le_refl _)

theorem deliver_congr (hagree : ∀ n g, g.pending < bound → again g n = again' g n)
    (hagain : ∀ n h, Later h (again h n).1) {given : Storage} (vs : List Value)
    (hb : h.pending ≤ bound) : deliver again given h vs = deliver again' given h vs := by
  induction vs generalizing h with
  | nil => rfl
  | cons v vs ih =>
    have hcall := (call_since (h := h) hagain (Nat.zero_le given.number) (Nat.zero_le _) v).pending
    rw [deliver, deliver,
      ← call_congr (fun n g hg => hagree n g (hg.trans_le hb)) hagain given v]
    rcases hc : h.call again given v with ⟨h₁, _ | _⟩ <;> rw [hc] at hcall
    · exact ih (hcall.trans hb)
    · have hnote := (h₁.noteFailure_quiet v).pending
      dsimp only
      rcases hr : h₁.noteFailure v with ⟨h₂, _ | _⟩
      · rfl
      · rw [hr] at hnote
        exact ih ((hnote.trans_le hcall).trans hb)

theorem round_congr (hagree : ∀ n g, g.pending < h.pending → again g n = again' g n)
    (hagain : ∀ n h, Later h (again h n).1) (n : Nat) : round again h n = round again' h n := by
  unfold round
  rcases h.install_cases n with ⟨fault, -, hi⟩ | ⟨h₁, st, hi, hl, -⟩
  · rw [hi]
  · have hb : h₁.pending = h.pending := by rw [pending_eq, pending_eq, hl]
    rw [hi]
    dsimp only
    rw [deliver_congr hagree hagain _ hb.le]

/-- Nesting deeper than there are scripts makes no difference. -/
theorem roundTo_eq {depth depth' : Nat} (hd : h.pending ≤ depth) (hd' : h.pending ≤ depth')
    (n : Nat) : roundTo depth h n = roundTo depth' h n := by
  induction depth generalizing depth' h n with
  | zero =>
    cases depth' with
    | zero => rfl
    | succ depth' => exact round_congr (fun m g hg => by omega) (fun _ h => Later.refl h) n
  | succ depth ih =>
    cases depth' with
    | zero =>
      exact round_congr (fun m g hg => by omega) (roundTo_later depth) n
    | succ depth' =>
      exact round_congr (fun m g hg => ih (by omega) (by omega) m) (roundTo_later depth) n

/-- Refreshing is a round in which listeners refresh states in the same way. -/
theorem refresh_eq (h : Hub) (n : Nat) : h.refresh n = round refresh h n := by
  have hround : h.refresh n = roundTo (h.pending + 1) h n :=
    roundTo_eq (Nat.le_refl _) (Nat.le_succ _) n
  rw [hround]
  exact round_congr (fun m g hg => roundTo_eq hg.le (Nat.le_refl _) m) (roundTo_later _) n

end Hub

end PathStore
