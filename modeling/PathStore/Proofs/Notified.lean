import PathStore.Proofs.Rounds

/-!
# Who is told of a snapshot

In one round every listener that is subscribed when the snapshot is installed is called once, in the
order of the subscriptions, with that snapshot, and nobody else is (`Hub.refresh_delivers`).  What
the listeners do in the meantime, which can be further rounds, delivers later storages only, and
their failures are logged; so the round goes through to its end.
-/

namespace PathStore.Hub

variable {h : Hub} {again : Refresher} {n : Nat}

/-- The listeners that a record says were given a storage, one call after the other. -/
def toldOf (given : Storage) (events : List Event) : List Nat :=
  events.filterMap fun
    | .delivery d => if d.given = given then some d.listener else none
    | .made _ _ => none

theorem toldOf_append (given : Storage) (es fs : List Event) :
    toldOf given (es ++ fs) = toldOf given es ++ toldOf given fs :=
  List.filterMap_append

/-- A record of later storages has no call with an earlier one. -/
theorem toldOf_eq_nil {given : Storage} {first : Nat} {events : List Event}
    (hgiven : given.number < first)
    (hevents : ∀ d, Event.delivery d ∈ events → first ≤ d.given.number) :
    toldOf given events = [] := by
  refine List.filterMap_eq_nil_iff.2 fun e he => ?_
  cases e with
  | made factory call => rfl
  | delivery d =>
    have hle := hevents d he
    have hne : d.given ≠ given := fun heq => by
      rw [heq] at hle
      omega
    exact if_neg hne

/-- That a listener failed can always be logged. -/
theorem noteFailure_of_listener {v : Value} {k : Nat} (hv : listener? v = some k) :
    ∃ h', h.noteFailure v = (h', .ok ()) := by
  obtain ⟨depth, hdepth⟩ := Nat.exists_eq_succ_of_ne_zero
    (Nat.mul_ne_zero h.store.size.succ_ne_zero h.store.extent.succ_ne_zero)
  unfold listener? at hv
  split at hv
  · next name k' copy =>
    have hshown : h.store.shown (.atom (.object (.listener name) k') copy) =
        (Atom.object (.listener name) k').shown := by
      rw [Store.shown, hdepth]
      rfl
    rw [noteFailure, hshown]
    exact ⟨_, rfl⟩
  · cases hv

/-- Listeners that are called with a storage one after the other are told of it once each, whatever
they do, and none of them stops the round. -/
theorem deliver_told (hagain : ∀ n h, Later h (again h n).1) {given : Storage} (vs : List Value)
    (hvs : ∀ v ∈ vs, (listener? v).isSome) (hgiven : given.number < h.store.storages.size) :
    ∃ h' new, deliver again given h vs = (h', .ok ()) ∧ h'.events = h.events ++ new ∧
      toldOf given new = vs.filterMap listener? := by
  induction vs generalizing h with
  | nil => exact ⟨h, [], rfl, (List.append_nil _).symm, rfl⟩
  | cons v vs ih =>
    obtain ⟨k, hv⟩ := Option.isSome_iff_exists.1 (hvs v List.mem_cons_self)
    have hrest : ∀ v ∈ vs, (listener? v).isSome := fun v hv => hvs v (List.mem_cons_of_mem _ hv)
    -- what the listener does delivers later storages only
    have hcall : Later (h.calling given k) (h.call again given v).1 := call_later hagain hv
    obtain ⟨new, hnew, hlater⟩ := hcall.events
    have hnone : toldOf given new = [] := toldOf_eq_nil hgiven hlater
    have hevents : (h.call again given v).1.events =
        h.events ++ (Event.delivery (h.deliveryOf given k) :: new) := by
      rw [hnew]
      exact List.append_assoc _ [_] _
    have hstorages : given.number < (h.call again given v).1.store.storages.size :=
      hgiven.trans_le hcall.storages
    have htold : toldOf given (Event.delivery (h.deliveryOf given k) :: new) = [k] := by
      rw [← List.singleton_append, toldOf_append, hnone, List.append_nil]
      exact List.filterMap_cons_some (if_pos rfl)
    have hfinish : ∀ h₁ : Hub, h₁.events = (h.call again given v).1.events →
        given.number < h₁.store.storages.size →
        ∃ h' new', deliver again given h₁ vs = (h', .ok ()) ∧
          h'.events = h.events ++ new' ∧ toldOf given new' = (v :: vs).filterMap listener? := by
      intro h₁ hev hsize
      obtain ⟨h', rest, hd, hev', htold'⟩ := ih hrest hsize
      refine ⟨h', (Event.delivery (h.deliveryOf given k) :: new) ++ rest, hd, ?_, ?_⟩
      · rw [hev', hev, hevents, List.append_assoc]
      · rw [toldOf_append, htold, htold', List.filterMap_cons_some hv]
        rfl
    rw [deliver]
    rcases hc : h.call again given v with ⟨h₁, _ | _⟩ <;> rw [hc] at hfinish hstorages
    · exact hfinish h₁ rfl hstorages
    · obtain ⟨h₂, hnote⟩ := noteFailure_of_listener (h := h₁) hv
      have hquiet := h₁.noteFailure_quiet v
      rw [hnote] at hquiet
      dsimp only
      rw [hnote]
      exact hfinish h₂ hquiet.events (hstorages.trans_le hquiet.storages)

/-- Where all subscribers are listeners, refreshing a state either does nothing, there being no copy
of its storage, or installs one and tells the listeners. -/
theorem refresh_told (hn : n < h.states.size)
    (hl : ∀ v ∈ (h.state n).subscribers, (listener? v).isSome) :
    (∃ fault, h.store.clone (h.state n).storage.root = .error fault ∧
        h.refresh n = (h, .error fault)) ∨
      ∃ h₁ st h' new, h.install n = (h₁, .ok st) ∧
        h₁.state n = { h.state n with storage := st, version := (h.state n).version + 1 } ∧
        h₁.events = h.events ∧ h.refresh n = (h', .ok st) ∧ h'.events = h.events ++ new ∧
        toldOf st new = (h.state n).subscribers.filterMap listener? := by
  rw [refresh_eq, round]
  rcases h.install_cases n with ⟨fault, hc, hi⟩ | ⟨h₁, st, hi, -, he, hst, -, hlt⟩
  · rw [hi]
    exact Or.inl ⟨fault, hc, rfl⟩
  · have hstate : h₁.state n =
        { h.state n with storage := st, version := (h.state n).version + 1 } := by
      simp [state, hst, hn, Array.getElem_modify]
    have hsubs : (h₁.state n).subscribers = (h.state n).subscribers := by rw [hstate]
    obtain ⟨h', new, hd, hev, htold⟩ := deliver_told (fun n h => refresh_later n h)
      (h₁.state n).subscribers (by rw [hsubs]; exact hl) hlt
    rw [hi]
    dsimp only
    rw [hd]
    refine Or.inr ⟨h₁, st, h', new, rfl, hstate, he, rfl, ?_, ?_⟩
    · rw [hev, he]
    · rw [htold, hsubs]

/-- A call that puts in or takes out and is to install a snapshot fails only before it has installed
one and before anybody has been told. -/
theorem answerAfter_refresh_error {α : Type} {answer : α} {h' : Hub} {fault : Fault}
    (hn : n < h.states.size) (hl : ∀ v ∈ (h.state n).subscribers, (listener? v).isSome)
    (he : answerAfter refresh n true h answer = (h', .error fault)) : h' = h := by
  simp only [answerAfter, if_true] at he
  rcases refresh_told hn hl with ⟨fault', -, hr⟩ | ⟨h₁, st, h₂, new, -, -, -, hr, -⟩
  · rw [hr] at he
    cases he
    rfl
  · rw [hr] at he
    cases he

theorem setValue_error {key new : Value} {h' : Hub} {fault : Fault} (hn : n < h.states.size)
    (hl : ∀ v ∈ (h.state n).subscribers, (listener? v).isSome)
    (he : h.setValue n key new true = (h', .error fault)) : Quiet h h' := by
  have hset := h.setIn_quiet n key new
  unfold setValue setWith at he
  rcases hr : h.setIn n key new with ⟨h₁, _ | _⟩ <;> rw [hr] at he hset
  · cases he
    exact hset
  · have heq := answerAfter_refresh_error (by rw [hset.states]; exact hn)
      (by rw [hset.state n]; exact hl) he
    rw [heq]
    exact hset

theorem deleteValue_error {key : Value} {keep : Choice} {h' : Hub} {fault : Fault}
    (hn : n < h.states.size) (hl : ∀ v ∈ (h.state n).subscribers, (listener? v).isSome)
    (he : h.deleteValue n key keep true = (h', .error fault)) : Quiet h h' := by
  have hdelete := h.deleteIn_quiet n key keep
  unfold deleteValue deleteWith at he
  rcases hr : h.deleteIn n key keep with ⟨h₁, _ | removed⟩ <;> rw [hr] at he hdelete
  · cases he
    exact hdelete
  · have heq := answerAfter_refresh_error (by rw [hdelete.states]; exact hn)
      (by rw [hdelete.state n]; exact hl) he
    rw [heq]
    exact hdelete

/-- Refreshing a state, whose listeners refresh states in the same way, does nothing where its
storage has no copy.  Otherwise the state gets the next version and the copy as its storage, every
listener subscribed at that moment is called once, in order, with this copy, and nobody else is; the
copy is returned whatever the listeners do.  A call that is to refresh the state after a change and
fails installs nothing and calls nobody. -/
theorem refresh_delivers (hn : n < h.states.size)
    (hl : ∀ v ∈ (h.state n).subscribers, (listener? v).isSome) :
    h.refresh n = round refresh h n ∧
    ((∃ fault, h.store.clone (h.state n).storage.root = .error fault ∧
        h.refresh n = (h, .error fault)) ∨
      ∃ h₁ st h' new, h.install n = (h₁, .ok st) ∧
        h₁.state n = { h.state n with storage := st, version := (h.state n).version + 1 } ∧
        h₁.events = h.events ∧ h.refresh n = (h', .ok st) ∧ h'.events = h.events ++ new ∧
        toldOf st new = (h.state n).subscribers.filterMap listener?) ∧
    (∀ key new h' fault, h.setValue n key new true = (h', .error fault) →
      h'.states = h.states ∧ h'.events = h.events) ∧
    (∀ key keep h' fault, h.deleteValue n key keep true = (h', .error fault) →
      h'.states = h.states ∧ h'.events = h.events) := by
  refine ⟨refresh_eq h n, refresh_told hn hl, ?_, ?_⟩
  · intro key new h' fault he
    have hquiet := setValue_error hn hl he
    exact ⟨hquiet.states, hquiet.events⟩
  · intro key keep h' fault he
    have hquiet := deleteValue_error hn hl he
    exact ⟨hquiet.states, hquiet.events⟩

/-- A state with two listeners, the first of them subscribed a second time after the other.  It
refreshes the state and then subscribes a third one; the other ends its first subscription and gives
up. -/
def quarrel : Hub :=
  let (h, n) := empty.newState .none
  let (h, first) := h.newListener
    ⟨"first", n, [.act .refresh fun _ => .act (.subscribe "third" "end") fun _ => .done]⟩
  let (h, second) := h.newListener ⟨"second", n, [.act (.unsubscribe "end first") fun _ => .fail]⟩
  let (h, third) := h.newListener ⟨"third", n, []⟩
  let (h, endFirst) := h.subscribe n first
  let (h, _) := h.subscribe n second
  let (h, _) := h.subscribe n first
  (h.keep "end first" endFirst).keep "third" third

theorem refresh_delivers_amid_quarrel :
    ∃ st h' new, quarrel.refresh 0 = (h', .ok st) ∧ h'.events = quarrel.events ++ new ∧
      toldOf st new = [0, 1, 0] ∧ (h'.state 0).subscribers.filterMap listener? = [1, 0, 2] := by
  have hcopy : (quarrel.store.clone (quarrel.state 0).storage.root).isOk := by decide +kernel
  obtain ⟨-, hround, -⟩ := refresh_delivers (h := quarrel) (n := 0) (by decide) (by decide)
  rcases hround with ⟨fault, hc, -⟩ | ⟨h₁, st, h', new, -, -, -, hr, hev, htold⟩
  · rw [hc] at hcopy
    cases hcopy
  · have hsubs : ((quarrel.refresh 0).1.state 0).subscribers.filterMap listener? = [1, 0, 2] := by
      decide +kernel
    rw [hr] at hsubs
    exact ⟨st, h', new, hr, hev, htold, hsubs⟩

end PathStore.Hub
