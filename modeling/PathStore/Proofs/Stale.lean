import PathStore.Proofs.Notified
import PathStore.Proofs.Prefixes
import PathStore.Proofs.Superseded

/-!
# Stale deliveries

A listener that installs a snapshot while it is called has this one delivered to all listeners at
once.  Those that come after it in the round that it interrupted are then given the older snapshot.
So a delivery can be stale, and it is so in exactly two equivalent cases (`Apt`): the storage given
was handed out before under another version, and the listener has been given a newer one before.
Whether a listener is left on the current storage depends on its last delivery alone
(`Hub.deliveries_exact`).  Numbers of storages grow with every snapshot, so an older snapshot is one
with a smaller number.
-/

namespace PathStore

/-! ## Sequences of deliveries -/

/-- A delivery after others: it is current exactly when the state has kept its version since the
storage was first handed out, and exactly when the listener was given no newer storage before. -/
def Apt (pre : List Delivery) (d : Delivery) : Prop :=
  (d.current = true ↔ ∀ e ∈ pre, e.given = d.given → e.version = d.version) ∧
    (d.current = true ↔ ∀ e ∈ pre, e.listener = d.listener → e.given.number ≤ d.given.number)

/-- The last delivery to a listener is current exactly when the storage given is `st`. -/
def LastApt (k : Nat) (st : Storage) (ds : List Delivery) : Prop :=
  ∃ pre d post, ds = pre ++ d :: post ∧ d.listener = k ∧ (∀ e ∈ post, e.listener ≠ k) ∧
    (d.current = true ↔ d.given = st)

variable {pre ds es : List Delivery} {d : Delivery} {k : Nat} {st : Storage}

/-- Earlier deliveries of older storages do not matter. -/
theorem Apt.after_older (h : Apt pre d) (hes : ∀ e ∈ es, e.given.number < d.given.number) :
    Apt (es ++ pre) d := by
  have hgiven : ∀ e ∈ es, e.given = d.given → e.version = d.version := fun e he heq => by
    have hlt := hes e he
    rw [heq] at hlt
    omega
  have hnumber : ∀ e ∈ es, e.listener = d.listener → e.given.number ≤ d.given.number :=
    fun e he _ => (hes e he).le
  constructor
  · rw [h.1, List.forall_mem_append]
    exact ⟨fun hpre => ⟨hgiven, hpre⟩, fun hall => hall.2⟩
  · rw [h.2, List.forall_mem_append]
    exact ⟨fun hpre => ⟨hnumber, hpre⟩, fun hall => hall.2⟩

theorem apt_after_older (h : EachAfter Apt ds)
    (hes : ∀ e ∈ es, ∀ d ∈ ds, e.given.number < d.given.number) :
    EachAfter (fun pre => Apt (es ++ pre)) ds :=
  h.imp fun _ d hd hapt => hapt.after_older fun e he => hes e he d hd

theorem LastApt.append_right (h : LastApt k st ds) (hes : ∀ e ∈ es, e.listener ≠ k) :
    LastApt k st (ds ++ es) := by
  obtain ⟨pre, d, post, rfl, hk, hpost, hcur⟩ := h
  refine ⟨pre, d, post ++ es, by simp, hk, ?_, hcur⟩
  exact List.forall_mem_append.2 ⟨hpost, hes⟩

theorem LastApt.append_left (h : LastApt k st es) : LastApt k st (ds ++ es) := by
  obtain ⟨pre, d, post, rfl, hk, hpost, hcur⟩ := h
  exact ⟨ds ++ pre, d, post, by simp, hk, hpost, hcur⟩

theorem lastApt_singleton (h : d.current = true ↔ d.given = st) : LastApt d.listener st [d] :=
  ⟨[], d, [], rfl, rfl, nofun, h⟩

/-- One delivery more decides for its listener and leaves the others what they were. -/
theorem lastApt_concat (hcur : d.current = true ↔ d.given = st)
    (hds : k ≠ d.listener → LastApt k st ds) : LastApt k st (ds ++ [d]) := by
  by_cases hk : k = d.listener
  · subst hk
    exact (lastApt_singleton hcur).append_left
  · exact (hds hk).append_right (List.forall_mem_singleton.2 fun heq => hk heq.symm)

namespace Hub

variable {h h' h'' h₁ g : Hub} {n : Nat} {vs : List Value} {ds' : List Delivery}

/-! ## Deliveries of a state -/

theorem deliveryOf_current_iff (hhome : (g.listener k).home = n) :
    (g.deliveryOf st k).current = true ↔ (g.deliveryOf st k).given = (g.state n).storage := by
  simp only [deliveryOf, hhome, decide_eq_true_eq]
  exact eq_comm

theorem deliveryOf_version (hhome : (g.listener k).home = n) :
    (g.deliveryOf st k).version = (g.state n).version := by
  simp only [deliveryOf, hhome]

/-! ## What lasts -/

/-- The subscribers of a state are listeners that act on it and change no subscription. -/
structure Steady (n : Nat) (vs : List Value) (h : Hub) : Prop where
  lt_size : n < h.states.size
  subscribers : (h.state n).subscribers = vs
  listeners : ∀ v ∈ vs, ∃ k, listener? v = some k ∧ (h.listener k).home = n ∧
    ∀ script ∈ (h.listener k).scripts, script.Only Action.Steady

/-- The listener of a number is among the subscribers. -/
def Among (vs : List Value) (k : Nat) : Prop :=
  ∃ v ∈ vs, listener? v = some k

theorem among_concat {told : List Value} {v : Value} {j : Nat} (hv : listener? v = some j)
    (hk : Among (told ++ [v]) k) (hne : k ≠ j) : Among told k := by
  obtain ⟨w, hw, hwk⟩ := hk
  rcases List.mem_append.1 hw with hw | hw
  · exact ⟨w, hw, hwk⟩
  · obtain rfl := List.mem_singleton.1 hw
    exact absurd (Option.some.inj (hwk.symm.trans hv)) hne

/-- From one hub to the next every listener is told of every snapshot that is installed, and the
deliveries are apt: either nothing is installed and nobody told, or the state is a newer one at the
end, of which every listener has been told. -/
structure Span (n : Nat) (vs : List Value) (h h' : Hub) (ds : List Delivery) : Prop where
  storages : h.store.storages.size ≤ h'.store.storages.size
  events : h'.events = h.events ++ ds.map Event.delivery
  fresh : ∀ d ∈ ds, h.store.storages.size ≤ d.given.number ∧
    d.given.number < h'.store.storages.size
  apt : EachAfter Apt ds
  outcome : (h'.state n = h.state n ∧ ds = []) ∨
    ((h.state n).version < (h'.state n).version ∧
      h.store.storages.size ≤ (h'.state n).storage.number ∧
      ∀ k, Among vs k → LastApt k (h'.state n).storage ds ∧
        ∃ e ∈ ds, e.listener = k ∧ e.given = (h'.state n).storage)

theorem Span.version_le (s : Span n vs h h' ds) :
    (h.state n).version ≤ (h'.state n).version := by
  rcases s.outcome with ⟨hstate, -⟩ | ⟨hlt, -⟩
  · rw [hstate]
  · exact hlt.le

theorem Quiet.span (q : Quiet h h') : Span n vs h h' [] :=
  ⟨q.storages, by rw [q.events, List.map_nil, List.append_nil], nofun, eachAfter_nil,
    Or.inl ⟨q.state n, rfl⟩⟩

theorem Span.trans (s : Span n vs h h' ds) (s' : Span n vs h' h'' ds') :
    Span n vs h h'' (ds ++ ds') := by
  refine ⟨s.storages.trans s'.storages, ?_, ?_, ?_, ?_⟩
  · rw [s'.events, s.events, List.map_append, List.append_assoc]
  · intro d hd
    rcases List.mem_append.1 hd with hd | hd
    · exact ⟨(s.fresh d hd).1, (s.fresh d hd).2.trans_le s'.storages⟩
    · exact ⟨s.storages.trans (s'.fresh d hd).1, (s'.fresh d hd).2⟩
  · refine eachAfter_append.2 ⟨s.apt, apt_after_older s'.apt fun e he d hd => ?_⟩
    exact (s.fresh e he).2.trans_le (s'.fresh d hd).1
  · rcases s'.outcome with ⟨hstate, rfl⟩ | ⟨hlt, hnum, hall⟩
    · rw [hstate, List.append_nil]
      exact s.outcome
    · refine Or.inr ⟨s.version_le.trans_lt hlt, s.storages.trans hnum, fun k hk => ?_⟩
      obtain ⟨hlast, e, he, htold⟩ := hall k hk
      exact ⟨hlast.append_left, e, List.mem_append_right _ he, htold⟩

/-- What state `n` and its subscribers are, and what happens to them, lasts. -/
def Spans (n : Nat) (vs : List Value) (h h' : Hub) : Prop :=
  Steady n vs h → Steady n vs h' ∧ ∃ ds, Span n vs h h' ds

theorem Steady.quiet (hs : Steady n vs h) (q : Quiet h h') : Steady n vs h' := by
  refine ⟨by rw [q.states]; exact hs.lt_size, by rw [q.state]; exact hs.subscribers, fun v hv => ?_⟩
  obtain ⟨k, hk, hhome, hscripts⟩ := hs.listeners v hv
  rw [← q.listener k] at hhome hscripts
  exact ⟨k, hk, hhome, hscripts⟩

theorem spans_lasting (n : Nat) (vs : List Value) : Lasting (Spans n vs) where
  quiet q hs := ⟨hs.quiet q, [], q.span⟩
  trans s s' hs := by
    obtain ⟨hs', ds, hspan⟩ := s hs
    obtain ⟨hs'', ds', hspan'⟩ := s' hs'
    exact ⟨hs'', ds ++ ds', hspan.trans hspan'⟩

/-! ## One round -/

/-- A round of state `n` has gone on from the hub `h₁`, in which the snapshot has just been
installed, to `g`, and has called the listeners `told`.  Either they have been given this snapshot
and nothing else has happened, or one of them has had a newer one delivered to all listeners. -/
structure Underway (n : Nat) (vs : List Value) (h₁ g : Hub) (told : List Value)
    (ds : List Delivery) : Prop where
  steady : Steady n vs g
  storages : h₁.store.storages.size ≤ g.store.storages.size
  events : g.events = h₁.events ++ ds.map Event.delivery
  fresh : ∀ d ∈ ds, d.given = (h₁.state n).storage ∨
    (h₁.store.storages.size ≤ d.given.number ∧ d.given.number < g.store.storages.size)
  apt : EachAfter Apt ds
  outcome :
    (g.state n = h₁.state n ∧
      (∀ d ∈ ds, d.given = (h₁.state n).storage ∧ d.version = (h₁.state n).version) ∧
      ∀ k, Among told k → LastApt k (h₁.state n).storage ds ∧ ∃ e ∈ ds, e.listener = k) ∨
    ((h₁.state n).version < (g.state n).version ∧
      h₁.store.storages.size ≤ (g.state n).storage.number ∧
      (∃ e ∈ ds, e.given = (h₁.state n).storage ∧ e.version < (g.state n).version) ∧
      ∀ k, Among vs k → LastApt k (g.state n).storage ds ∧
        ∃ e ∈ ds, e.listener = k ∧ e.given = (g.state n).storage)

namespace Underway

variable {told : List Value} {v : Value}

theorem version_le (u : Underway n vs h₁ g told ds) :
    (h₁.state n).version ≤ (g.state n).version := by
  rcases u.outcome with ⟨hstate, -⟩ | ⟨hlt, -⟩
  · rw [hstate]
  · exact hlt.le

theorem quiet (u : Underway n vs h₁ g told ds) (q : Quiet g h') :
    Underway n vs h₁ h' told ds := by
  refine ⟨u.steady.quiet q, u.storages.trans q.storages, by rw [q.events, u.events], ?_, u.apt, ?_⟩
  · intro d hd
    rcases u.fresh d hd with heq | ⟨hle, hlt⟩
    · exact Or.inl heq
    · exact Or.inr ⟨hle, hlt.trans_le q.storages⟩
  · rw [q.state n]
    exact u.outcome

theorem older (u : Underway n vs h₁ g told ds)
    (hlt : (h₁.state n).storage.number < h₁.store.storages.size) :
    ∀ d ∈ ds, d.given.number < g.store.storages.size := by
  intro d hd
  rcases u.fresh d hd with heq | ⟨-, hlt'⟩
  · rw [heq]
    exact hlt.trans_le u.storages
  · exact hlt'

/-- The next delivery of a round is apt. -/
theorem apt_next (u : Underway n vs h₁ g told ds)
    (hlt : (h₁.state n).storage.number < h₁.store.storages.size) (hk : Among vs k)
    (hhome : (g.listener k).home = n) : Apt ds (g.deliveryOf (h₁.state n).storage k) := by
  have hgiven : (g.deliveryOf (h₁.state n).storage k).given = (h₁.state n).storage := rfl
  unfold Apt
  rw [deliveryOf_current_iff hhome, deliveryOf_version hhome, hgiven]
  rcases u.outcome with ⟨hstate, hall, -⟩ | ⟨-, hnum, ⟨e, he, hst, hev⟩, hall⟩
  · refine ⟨iff_of_true (by rw [hstate]) fun e he _ => ?_,
      iff_of_true (by rw [hstate]) fun e he _ => ?_⟩
    · rw [hstate, (hall e he).2]
    · rw [(hall e he).1]
  · -- a newer snapshot has been delivered to all, the listener included
    have hne : (h₁.state n).storage ≠ (g.state n).storage := fun heq => by
      rw [← heq] at hnum
      omega
    obtain ⟨-, e', he', hk', hst'⟩ := hall k hk
    refine ⟨iff_of_false hne fun hsame => ?_, iff_of_false hne fun hle => ?_⟩
    · have hsame := hsame e he hst
      omega
    · have hle := hle e' he' hk'
      rw [hst'] at hle
      omega

/-- The listener called next is the last one that has been told. -/
theorem lastApt_next (hhome : (g.listener k).home = n) {j : Nat}
    (hds : j ≠ k → LastApt j (g.state n).storage ds) :
    LastApt j (g.state n).storage (ds ++ [g.deliveryOf st k]) :=
  lastApt_concat (deliveryOf_current_iff hhome) hds

/-- Calling the next listener keeps a round going, whatever the listener does. -/
theorem next (u : Underway n vs h₁ g told ds)
    (hlt : (h₁.state n).storage.number < h₁.store.storages.size) (hv : v ∈ vs)
    (hk : listener? v = some k) (hhome : (g.listener k).home = n) (hs : Steady n vs h')
    (s : Span n vs (g.calling (h₁.state n).storage k) h' ds') :
    Underway n vs h₁ h' (told ++ [v])
      (ds ++ g.deliveryOf (h₁.state n).storage k :: ds') := by
  have hapt := u.apt_next hlt ⟨v, hv, hk⟩ hhome
  have hversion : (g.deliveryOf (h₁.state n).storage k).version = (g.state n).version :=
    deliveryOf_version hhome
  have hsize : g.store.storages.size ≤ h'.store.storages.size := s.storages
  have hfresh : ∀ d ∈ ds', g.store.storages.size ≤ d.given.number ∧
      d.given.number < h'.store.storages.size := s.fresh
  have holder : ∀ d ∈ ds ++ [g.deliveryOf (h₁.state n).storage k],
      d.given.number < g.store.storages.size :=
    List.forall_mem_append.2
      ⟨u.older hlt, List.forall_mem_singleton.2 (hlt.trans_le u.storages)⟩
  refine ⟨hs, u.storages.trans hsize, ?_, ?_, ?_, ?_⟩
  · rw [s.events, calling, u.events]
    simp
  · intro d hd
    rcases List.mem_append.1 hd with hd | hd
    · rcases u.fresh d hd with heq | ⟨hle, hlt'⟩
      · exact Or.inl heq
      · exact Or.inr ⟨hle, hlt'.trans_le hsize⟩
    · rcases List.mem_cons.1 hd with rfl | hd
      · exact Or.inl rfl
      · exact Or.inr ⟨u.storages.trans (hfresh d hd).1, (hfresh d hd).2⟩
  · rw [List.append_cons]
    refine eachAfter_append.2 ⟨eachAfter_append.2 ⟨u.apt, ?_⟩, ?_⟩
    · rw [eachAfter_singleton, List.append_nil]
      exact hapt
    · exact apt_after_older s.apt fun e he d hd => (holder e he).trans_le (hfresh d hd).1
  · have hstate : (g.calling (h₁.state n).storage k).state n = g.state n := rfl
    rcases s.outcome with ⟨hidle, rfl⟩ | ⟨hnewer, hnum, hall⟩
    · -- the listener installs nothing
      rw [hidle, hstate]
      rcases u.outcome with ⟨hfirst, hgiven, htold⟩ | ⟨hnewer, hnum, ⟨e, he, hst, hev⟩, hall⟩
      · refine Or.inl ⟨hfirst, ?_, fun j hj => ⟨?_, ?_⟩⟩
        · refine List.forall_mem_append.2 ⟨hgiven, List.forall_mem_singleton.2 ⟨rfl, ?_⟩⟩
          rw [hversion, hfirst]
        · rw [← hfirst]
          refine lastApt_next hhome fun hne => ?_
          rw [hfirst]
          exact (htold j (among_concat hk hj hne)).1
        · by_cases hne : j = k
          · exact ⟨_, List.mem_append_right _ (List.mem_singleton_self _), hne.symm⟩
          · obtain ⟨-, e, he, hek⟩ := htold j (among_concat hk hj hne)
            exact ⟨e, List.mem_append_left _ he, hek⟩
      · refine Or.inr ⟨hnewer, hnum, ⟨e, List.mem_append_left _ he, hst, hev⟩, fun j hj => ?_⟩
        obtain ⟨hlast, e', he', htold⟩ := hall j hj
        exact ⟨lastApt_next hhome fun _ => hlast, e', List.mem_append_left _ he', htold⟩
    · rw [hstate] at hnewer
      refine Or.inr ⟨u.version_le.trans_lt hnewer, u.storages.trans hnum, ?_, fun j hj => ?_⟩
      · refine ⟨_, List.mem_append_right _ List.mem_cons_self, rfl, ?_⟩
        rw [hversion]
        exact hnewer
      · obtain ⟨hlast, e, he, htold⟩ := hall j hj
        rw [List.append_cons]
        exact ⟨hlast.append_left, e, List.mem_append_right _ he, htold⟩

end Underway

variable {again : Refresher}

/-- Taking a script leaves every listener where it acts and adds no script to it. -/
theorem takeScript_listener (h : Hub) (k j : Nat) :
    ((h.takeScript k).1.listener j).home = (h.listener j).home ∧
      ∀ script ∈ ((h.takeScript k).1.listener j).scripts, script ∈ (h.listener j).scripts := by
  unfold takeScript
  cases hsc : (h.listener k).scripts with
  | nil => exact ⟨rfl, fun _ => id⟩
  | cons script rest =>
    simp only [listener] at hsc
    simp only [listener, Array.getElem?_modify]
    by_cases hj : k = j
    · subst hj
      cases hget : h.listeners[k]? with
      | none =>
        simp only [if_true, Option.map_none]
        exact ⟨trivial, fun _ => id⟩
      | some l =>
        rw [hget, Option.getD_some] at hsc
        simp only [if_true, Option.map_some, Option.getD_some]
        rw [hsc]
        exact ⟨trivial, fun _ => List.mem_cons_of_mem _⟩
    · simp only [hj, if_false]
      exact ⟨trivial, fun _ => id⟩

theorem Steady.takeScript (hs : Steady n vs h) (k : Nat) : Steady n vs (h.takeScript k).1 := by
  obtain ⟨hstates, -, -⟩ := h.takeScript_frame k
  refine ⟨by rw [hstates]; exact hs.lt_size, ?_, fun v hv => ?_⟩
  · rw [state, hstates]
    exact hs.subscribers
  · obtain ⟨j, hj, hhome, hscripts⟩ := hs.listeners v hv
    obtain ⟨hhome', hmem⟩ := h.takeScript_listener k j
    exact ⟨j, hj, hhome'.trans hhome, fun script hscript => hscripts script (hmem script hscript)⟩

/-- The script that a listener runs next is one of its scripts or the empty one. -/
theorem takeScript_script (h : Hub) (k : Nat) :
    (h.takeScript k).2 = .done ∨ (h.takeScript k).2 ∈ (h.listener k).scripts := by
  unfold takeScript
  cases (h.listener k).scripts with
  | nil => exact Or.inl rfl
  | cons script rest => exact Or.inr List.mem_cons_self

/-- What a listener does when it is called lasts if further rounds do. -/
theorem call_spans (hagain : ∀ h, Spans n vs h (again h n).1) {v : Value} {k : Nat} (hv : v ∈ vs)
    (hk : listener? v = some k) (hs : Steady n vs h) :
    Spans n vs (h.calling st k) (h.call again st v).1 := by
  intro hcalling
  obtain ⟨j, hj, hhome, hscripts⟩ := hs.listeners v hv
  obtain rfl : j = k := Option.some.inj (hj.symm.trans hk)
  obtain ⟨hstates, hstore, hevents⟩ := (h.calling st j).takeScript_frame j
  have htaken : Span n vs (h.calling st j) ((h.calling st j).takeScript j).1 [] := by
    refine ⟨by rw [hstore], by rw [hevents, List.map_nil, List.append_nil], nofun,
      eachAfter_nil, ?_⟩
    exact Or.inl ⟨by rw [state, state, hstates], rfl⟩
  have hscript : ((h.calling st j).takeScript j).2.Only Action.Steady := by
    rcases (h.calling st j).takeScript_script j with hdone | hmem
    · rw [hdone]
      exact .done
    · exact hscripts _ hmem
  have hperform : ∀ g action, action.Steady → Spans n vs g (perform again n st g action).1 :=
    fun g action ha => (spans_lasting n vs).perform hagain ha
  rw [call_eq hk, hhome]
  obtain ⟨hs', ds, hspan⟩ := (spans_lasting n vs).run hperform hscript
    ((h.calling st j).takeScript j).1 (hcalling.takeScript j)
  exact ⟨hs', ds, htaken.trans hspan⟩

/-- A round calls its listeners to the end. -/
theorem Underway.deliver (hagain : ∀ h, Spans n vs h (again h n).1)
    (hlt : (h₁.state n).storage.number < h₁.store.storages.size) {told rest : List Value}
    (hvs : ∀ v ∈ rest, v ∈ vs) (u : Underway n vs h₁ g told ds) :
    ∃ h' ds', deliver again (h₁.state n).storage g rest = (h', .ok ()) ∧
      Underway n vs h₁ h' (told ++ rest) ds' := by
  induction rest generalizing g told ds with
  | nil =>
    rw [List.append_nil]
    exact ⟨g, ds, rfl, u⟩
  | cons v rest ih =>
    have hv : v ∈ vs := hvs v List.mem_cons_self
    have hrest : ∀ v ∈ rest, v ∈ vs := fun v hv => hvs v (List.mem_cons_of_mem _ hv)
    obtain ⟨k, hk, hhome, -⟩ := u.steady.listeners v hv
    have hcalling : Steady n vs (g.calling (h₁.state n).storage k) :=
      ⟨u.steady.lt_size, u.steady.subscribers, u.steady.listeners⟩
    obtain ⟨hs', ds', hspan⟩ := call_spans hagain hv hk u.steady hcalling
    have hnext := u.next hlt hv hk hhome hs' hspan
    rw [Hub.deliver, ← List.singleton_append, ← List.append_assoc]
    rcases hc : g.call again (h₁.state n).storage v with ⟨g₁, _ | _⟩ <;> rw [hc] at hnext
    · exact ih hrest hnext
    · obtain ⟨g₂, hnote⟩ := noteFailure_of_listener (h := g₁) hk
      have hquiet := g₁.noteFailure_quiet v
      rw [hnote] at hquiet
      dsimp only
      rw [hnote]
      exact ih hrest (hnext.quiet hquiet)

theorem Steady.install (hs : Steady n vs h) (hl : h₁.listeners = h.listeners)
    (hsize : h₁.states.size = h.states.size)
    (hsubs : (h₁.state n).subscribers = (h.state n).subscribers) : Steady n vs h₁ := by
  refine ⟨by rw [hsize]; exact hs.lt_size, hsubs.trans hs.subscribers, fun v hv => ?_⟩
  obtain ⟨k, hk, hlistener⟩ := hs.listeners v hv
  have hsame : h₁.listener k = h.listener k := by rw [listener, listener, hl]
  rw [← hsame] at hlistener
  exact ⟨k, hk, hlistener⟩

/-- A round starts with nobody told. -/
theorem Steady.underway (hs : Steady n vs h₁) : Underway n vs h₁ h₁ [] [] := by
  refine ⟨hs, Nat.le_refl _, by rw [List.map_nil, List.append_nil], nofun, eachAfter_nil, ?_⟩
  exact Or.inl ⟨rfl, nofun, fun k ⟨v, hv, _⟩ => by cases hv⟩

/-- A round that has called all listeners has told them of the last snapshot. -/
theorem Underway.span (u : Underway n vs h₁ h' vs ds) (he : h₁.events = h.events)
    (hv : (h.state n).version < (h₁.state n).version)
    (hst : h.store.storages.size ≤ (h₁.state n).storage.number)
    (hlt : (h₁.state n).storage.number < h₁.store.storages.size) : Span n vs h h' ds := by
  have hstorages := u.storages
  have hsize : h.store.storages.size ≤ h'.store.storages.size := by omega
  refine ⟨hsize, by rw [u.events, he], fun d hd => ?_, u.apt, ?_⟩
  · rcases u.fresh d hd with heq | ⟨hge, hlt'⟩
    · rw [heq]
      exact ⟨hst, hlt.trans_le hstorages⟩
    · exact ⟨by omega, hlt'⟩
  · refine Or.inr ⟨hv.trans_le u.version_le, ?_, fun k hk => ?_⟩
    · rcases u.outcome with ⟨hfirst, -⟩ | ⟨-, hnum, -⟩
      · rw [hfirst]
        exact hst
      · omega
    · rcases u.outcome with ⟨hfirst, hall, htold⟩ | ⟨-, -, -, hall⟩
      · rw [hfirst]
        obtain ⟨hlast, e, he, hek⟩ := htold k hk
        exact ⟨hlast, e, he, hek, (hall e he).1⟩
      · exact hall k hk

/-- A round lasts if further rounds do. -/
theorem round_spans (hagain : ∀ h, Spans n vs h (again h n).1) (h : Hub) :
    Spans n vs h (round again h n).1 := by
  intro hs
  unfold round
  rcases h.install_cases n with ⟨fault, -, hi⟩ | ⟨h₁, st, hi, hl, he, hst, hle, hlt⟩
  · rw [hi]
    exact (spans_lasting n vs).refl h hs
  · have hstate : h₁.state n =
        { h.state n with storage := st, version := (h.state n).version + 1 } := by
      have hn := hs.lt_size
      simp [state, hst, hn, Array.getElem_modify]
    have hgiven : (h₁.state n).storage = st := by rw [hstate]
    have hversion : (h₁.state n).version = (h.state n).version + 1 := by rw [hstate]
    have hs₁ : Steady n vs h₁ :=
      hs.install hl (by rw [hst, Array.size_modify]) (by rw [hstate])
    rw [← hgiven] at hle hlt
    obtain ⟨h', ds, hd, u⟩ := Underway.deliver hagain hlt (fun v hv => hv) hs₁.underway
    rw [hgiven] at hd
    rw [hi]
    dsimp only
    rw [hs₁.subscribers, hd]
    exact ⟨u.steady, ds, u.span he (by omega) hle hlt⟩

theorem roundTo_spans (depth : Nat) (h : Hub) : Spans n vs h (roundTo depth h n).1 := by
  induction depth generalizing h with
  | zero => exact round_spans (fun h => (spans_lasting n vs).refl h) h
  | succ depth ih => exact round_spans ih h

theorem edited_quiet (h : Hub) (n : Nat) (call : StateCall) : Quiet h (h.edited n call) := by
  cases call with
  | set key new force => exact h.setIn_quiet n key new
  | delete key keep force => exact h.deleteIn_quiet n key keep
  | refresh => exact ⟨rfl, rfl, rfl, Nat.le_refl _⟩

/-- In a call on a state that installs snapshots, with listeners that may do so themselves, a
listener is given a storage that is the current one exactly as long as the state has kept its
version since that storage was first handed out; and exactly when it is not the current one, the
listener goes back to an older storage than it had been given in that call.  The last storage that a
listener is given is the state's storage in the end exactly when it was the current one when it was
given. -/
theorem deliveries_exact {call : StateCall} (hs : Steady n (h.state n).subscribers h)
    (hv : ((h.after n call).state n).version ≠ (h.state n).version) :
    ∃ ds : List Delivery, (h.after n call).events = h.events ++ ds.map Event.delivery ∧
      (∀ pre d post, ds = pre ++ d :: post →
        (d.current = true ↔ ∀ e ∈ pre, e.given = d.given → e.version = d.version) ∧
        (d.current = true ↔
          ∀ e ∈ pre, e.listener = d.listener → e.given.number ≤ d.given.number)) ∧
      ∀ v ∈ (h.state n).subscribers, ∃ k pre d post, listener? v = some k ∧
        ds = pre ++ d :: post ∧ d.listener = k ∧ (∀ e ∈ post, e.listener ≠ k) ∧
        (d.current = true ↔ d.given = ((h.after n call).state n).storage) := by
  have hquiet := h.edited_quiet n call
  rcases h.after_eq n call with heq | heq
  · rw [heq, hquiet.state n] at hv
    exact absurd rfl hv
  · rw [heq] at hv ⊢
    obtain ⟨-, ds, hspan⟩ :=
      roundTo_spans (h.edited n call).pending (h.edited n call) (hs.quiet hquiet)
    refine ⟨ds, ?_, ?_, fun v hv' => ?_⟩
    · rw [← hquiet.events]
      exact hspan.events
    · exact hspan.apt
    · obtain ⟨k, hk, -⟩ := hs.listeners v hv'
      rcases hspan.outcome with ⟨hidle, -⟩ | ⟨-, -, hall⟩
      · rw [refresh, hidle, hquiet.state n] at hv
        exact absurd rfl hv
      · obtain ⟨pre, d, post, hds, hdk, hpost, hcur⟩ := (hall k ⟨v, hv', hk⟩).1
        exact ⟨k, pre, d, post, hk, hds, hdk, hpost, hcur⟩

/-- The deliveries that are recorded. -/
def deliveries (h : Hub) : List Delivery :=
  h.events.filterMap fun
    | .delivery d => some d
    | .made _ _ => none

/-- A state with two listeners, of which the first refreshes the state when it is called for the
first time. -/
def relay : Hub :=
  let (h, n) := empty.newState .none
  let (h, first) := h.newListener ⟨"first", n, [.act .refresh fun _ => .done]⟩
  let (h, second) := h.newListener ⟨"second", n, []⟩
  let (h, _) := h.subscribe n first
  (h.subscribe n second).1

theorem relay_steady : Steady 0 (relay.state 0).subscribers relay := by
  have hsubs : (relay.state 0).subscribers =
      [.object (.listener "first") 0, .object (.listener "second") 1] := by
    decide +kernel
  have hfirst : (relay.listener 0).scripts = [.act .refresh fun _ => .done] := rfl
  have hsecond : (relay.listener 1).scripts = [] := rfl
  refine ⟨by decide, rfl, ?_⟩
  rw [hsubs, List.forall_mem_cons, List.forall_mem_singleton]
  refine ⟨⟨0, rfl, by decide +kernel, ?_⟩, ⟨1, rfl, by decide +kernel, ?_⟩⟩
  · rw [hfirst, List.forall_mem_singleton]
    exact .act trivial fun _ => .done
  · rw [hsecond]
    exact fun script hscript => absurd hscript List.not_mem_nil

theorem deliveries_exact_relayed :
    ∃ ds d, (relay.after 0 .refresh).events = (ds ++ [d]).map Event.delivery ∧
      d.current = false ∧ ∃ e ∈ ds, e.listener = d.listener ∧ d.given.number < e.given.number := by
  have hv : ((relay.after 0 .refresh).state 0).version ≠ (relay.state 0).version := by
    decide +kernel
  obtain ⟨ds, hev, hapt, -⟩ := deliveries_exact relay_steady hv
  have hcurrent : (relay.after 0 .refresh).deliveries.map Delivery.current =
      [true, true, true, false] := by
    decide +kernel
  have hds : (relay.after 0 .refresh).deliveries = ds := by
    rw [deliveries, hev, List.filterMap_append, List.filterMap_map]
    exact List.filterMap_some
  rw [hds] at hcurrent
  rcases List.eq_nil_or_concat ds with rfl | ⟨pre, d, hpre⟩
  · cases hcurrent
  · rw [List.concat_eq_append] at hpre
    subst hpre
    have hd : d.current = false := by
      have hlast := congrArg List.getLast? hcurrent
      simpa using hlast
    refine ⟨pre, d, hev, hd, ?_⟩
    by_contra hnone
    push Not at hnone
    have hcur := (hapt pre d [] rfl).2.2 hnone
    rw [hd] at hcur
    cases hcur

/-- The listener that comes after one that refreshes the state is told of the newer snapshot first
and left on the older one. -/
theorem refresh_leaves_stale :
    Steady 0 (relay.state 0).subscribers relay ∧
      (relay.after 0 .refresh).deliveries.map (fun d => (d.listener, d.given.number, d.current)) =
        [(0, 1, true), (0, 2, true), (1, 2, true), (1, 1, false)] ∧
      ((relay.after 0 .refresh).state 0).storage.number = 2 :=
  ⟨relay_steady, by decide +kernel, by decide +kernel⟩

end Hub

end PathStore
