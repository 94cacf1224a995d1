import Mathlib
import PathStore.Proofs.Notified
import PathStore.Proofs.Prefixes

/-!
# How often a listener is called

The function that ends a subscription takes out the first subscriber that equals its listener,
whichever subscription put it there, and does so at every call.  So a listener is subscribed once
more after every subscription and once less after every call of one of its functions, as long as it
is subscribed at all (`Move.due`), and the next snapshot is told to it that many times
(`Hub.refresh_counts`).  This is the number of its subscriptions whose own function has not been
called (`Move.live`), unless a function is called again while its listener has such a subscription
left: then that one is lost (`Move.Orderly`, `Hub.refresh_forgets_subscription`).
-/

namespace PathStore

/-! ## What happens to subscriptions -/

/-- What happens to the subscriptions of a state.  A subscription is known by the number of the
function that ends it. -/
inductive Move where
  | subscribed (number listener : Nat)
  /-- The function of that number, which was given for that listener, is called. -/
  | calledOff (number listener : Nat)
  deriving DecidableEq, Repr

namespace Move

variable {moves past : List Move} {move : Move} {k l l' : Nat}

/-- The number that a listener's subscription gets. -/
def given? (l : Nat) : Move → Option Nat
  | subscribed k l' => if l' = l then some k else none
  | calledOff _ _ => none

/-- The number of the function that is called. -/
def ended? : Move → Option Nat
  | subscribed _ _ => none
  | calledOff k _ => some k

/-- The subscriptions of a listener whose own function has not been called. -/
def live (moves : List Move) (l : Nat) : Finset Nat :=
  (moves.filterMap (given? l)).toFinset \ (moves.filterMap ended?).toFinset

/-- How often a listener is subscribed after a move. -/
def after (l count : Nat) : Move → Nat
  | subscribed _ l' => if l' = l then count + 1 else count
  | calledOff _ l' => if l' = l then count - 1 else count

/-- How often a listener is subscribed in the end. -/
def due (moves : List Move) (l : Nat) : Nat :=
  moves.foldl (after l) 0

/-- A move that can come next: a subscription gets a new number, and only a function that was given
is called. -/
def Fits (past : List Move) : Move → Prop
  | subscribed k _ => ∀ l, subscribed k l ∉ past
  | calledOff k l => subscribed k l ∈ past

/-- A function is called again only while its listener has no subscription left whose own function
has not been called. -/
def Orderly (moves : List Move) : Prop :=
  EachAfter (fun past move => ∀ k l, move = calledOff k l → move ∈ past → live past l = ∅) moves

theorem due_concat (moves : List Move) (move : Move) (l : Nat) :
    due (moves ++ [move]) l = after l (due moves l) move := by
  rw [due, List.foldl_append]
  rfl

theorem mem_given : k ∈ moves.filterMap (given? l) ↔ subscribed k l ∈ moves := by
  rw [List.mem_filterMap]
  constructor
  · rintro ⟨move, hmove, hk⟩
    cases move with
    | subscribed k' l' =>
      obtain ⟨rfl, rfl⟩ : l' = l ∧ k' = k := by simpa [given?] using hk
      exact hmove
    | calledOff k' l' => cases hk
  · intro hmove
    exact ⟨_, hmove, if_pos rfl⟩

theorem mem_ended : k ∈ moves.filterMap ended? ↔ ∃ l, calledOff k l ∈ moves := by
  rw [List.mem_filterMap]
  constructor
  · rintro ⟨move, hmove, hk⟩
    cases move with
    | subscribed k' l' => cases hk
    | calledOff k' l' =>
      cases hk
      exact ⟨l', hmove⟩
  · rintro ⟨l, hmove⟩
    exact ⟨_, hmove, rfl⟩

theorem mem_live : k ∈ live moves l ↔ subscribed k l ∈ moves ∧ ∀ l', calledOff k l' ∉ moves := by
  rw [live, Finset.mem_sdiff, List.mem_toFinset, List.mem_toFinset, mem_given, mem_ended, not_exists]

/-- Only functions that were given are called. -/
theorem subscribed_of_calledOff (hsound : EachAfter Fits moves) (hk : calledOff k l ∈ moves) :
    subscribed k l ∈ moves := by
  obtain ⟨pre, post, rfl⟩ := List.mem_iff_append.1 hk
  exact List.mem_append_left _ (hsound pre _ post rfl)

/-- A number belongs to one listener. -/
theorem listener_unique (hsound : EachAfter Fits moves) (hl : subscribed k l ∈ moves)
    (hl' : subscribed k l' ∈ moves) : l = l' := by
  induction moves using List.reverseRecOn with
  | nil => cases hl
  | append_singleton moves move ih =>
    obtain ⟨hsound, hfits⟩ := eachAfter_concat.1 hsound
    rw [List.mem_append, List.mem_singleton] at hl hl'
    rcases hl with hl | rfl <;> rcases hl' with hl' | hl'
    · exact ih hsound hl hl'
    · rw [← hl'] at hfits
      exact absurd hl (hfits l)
    · exact absurd hl' (hfits l')
    · cases hl'
      rfl

/-! ## Live subscriptions after a move -/

theorem live_subscribed (hfits : Fits past (subscribed k l)) (hsound : EachAfter Fits past) :
    live (past ++ [subscribed k l]) l = insert k (live past l) ∧ k ∉ live past l := by
  have hnew : ∀ l', calledOff k l' ∉ past := fun l' hk =>
    hfits l' (subscribed_of_calledOff hsound hk)
  constructor
  · ext k'
    simp only [mem_live, Finset.mem_insert, List.mem_append, List.mem_singleton]
    grind
  · rw [mem_live]
    exact fun hk => hfits l hk.1

theorem live_calledOff : live (past ++ [calledOff k l]) l' = (live past l').erase k := by
  ext k'
  simp only [mem_live, Finset.mem_erase, List.mem_append, List.mem_singleton, reduceCtorEq, or_false,
    calledOff.injEq, not_or, forall_and]
  constructor
  · rintro ⟨hk, hpast, hne⟩
    exact ⟨fun heq => hne l ⟨heq, rfl⟩, hk, hpast⟩
  · rintro ⟨hne, hk, hpast⟩
    exact ⟨hk, hpast, fun _ heq => hne heq.1⟩

theorem live_of_ne (hsound : EachAfter Fits (past ++ [move])) (hne : ∀ k, move ≠ subscribed k l)
    (hne' : ∀ k, move ≠ calledOff k l) : live (past ++ [move]) l = live past l := by
  obtain ⟨hpast, hfits⟩ := eachAfter_concat.1 hsound
  cases move with
  | subscribed k l' =>
    have hl : l ≠ l' := fun heq => hne k (by rw [heq])
    ext k'
    simp [mem_live, hl]
  | calledOff k l' =>
    -- the function called is another listener's
    have hk : k ∉ live past l := fun hk => by
      obtain rfl := listener_unique hpast (mem_live.1 hk).1 hfits
      exact hne' k rfl
    rw [live_calledOff, Finset.erase_eq_of_notMem hk]

/-- In orderly moves a listener is subscribed as often as it has live subscriptions. -/
theorem due_eq_card_live (hsound : EachAfter Fits moves) (horderly : Orderly moves) (l : Nat) :
    due moves l = (live moves l).card := by
  induction moves using List.reverseRecOn with
  | nil => rfl
  | append_singleton moves move ih =>
    obtain ⟨hpast, hfits⟩ := eachAfter_concat.1 hsound
    obtain ⟨hpast', hmove⟩ := eachAfter_concat.1 horderly
    rw [due_concat, ih hpast hpast']
    by_cases hother : (∀ k, move ≠ subscribed k l) ∧ ∀ k, move ≠ calledOff k l
    · rw [live_of_ne hsound hother.1 hother.2]
      cases move with
      | subscribed k l' => exact if_neg fun h => hother.1 k (by rw [h])
      | calledOff k l' => exact if_neg fun h => hother.2 k (by rw [h])
    · obtain ⟨k, rfl | rfl⟩ : ∃ k, move = subscribed k l ∨ move = calledOff k l := by
        by_contra hno
        exact hother ⟨fun k h => hno ⟨k, .inl h⟩, fun k h => hno ⟨k, .inr h⟩⟩
      · obtain ⟨hlive, hk⟩ := live_subscribed hfits hpast
        rw [hlive, Finset.card_insert_of_notMem hk]
        exact if_pos rfl
      · have hafter : after l (live moves l).card (calledOff k l) = (live moves l).card - 1 :=
          if_pos rfl
        rw [hafter, live_calledOff]
        by_cases hagain : calledOff k l ∈ moves
        · rw [hmove k l rfl hagain]
          rfl
        · have hk : k ∈ live moves l := mem_live.2 ⟨hfits, fun l' hk => by
            obtain rfl := listener_unique hpast (subscribed_of_calledOff hpast hk) hfits
            exact hagain hk⟩
          rw [Finset.card_erase_of_mem hk]

end Move

namespace Hub

open Move (Fits due live Orderly)

variable {n k l : Nat} {h h' h₀ : Hub} {names : Nat → Text} {moves : List Move}

/-! ## Histories of subscriptions -/

/-- What refers to a listener, whose name is known by its number. -/
def listenerOf (names : Nat → Text) (l : Nat) : Value :=
  .object (.listener (names l)) l

/-- The second hub comes from the first by something that leaves a state's subscribers and the
subscriptions that there are alone. -/
structure Apart (n : Nat) (h h' : Hub) : Prop where
  size : h.states.size ≤ h'.states.size
  subscribers : (h'.state n).subscribers = (h.state n).subscribers
  subscriptions : ∀ (k : Nat) (sub : Subscription), h.subscriptions[k]? = some sub →
    h'.subscriptions[k]? = some sub

/-- What can happen to the subscriptions of state `n` from the first hub on: the moves, which lead to
the second hub.  Listeners are subscribed any number of times, and functions that subscriptions gave
are called any number of times. -/
inductive Course (n : Nat) (names : Nat → Text) (h₀ : Hub) : List Move → Hub → Prop
  | start : Course n names h₀ [] h₀
  | subscribe {moves : List Move} {h h' : Hub} {k l : Nat} (course : Course n names h₀ moves h)
      (gives : h.subscribe n (listenerOf names l) = (h', .object .function k)) :
      Course n names h₀ (moves ++ [.subscribed k l]) h'
  | callOff {moves : List Move} {h h' : Hub} {k l : Nat} (course : Course n names h₀ moves h)
      (given : .subscribed k l ∈ moves)
      (ends : h.callOff (.object .function k) = (h', .ok .none)) :
      Course n names h₀ (moves ++ [.calledOff k l]) h'
  | apart {moves : List Move} {h h' : Hub} (course : Course n names h₀ moves h)
      (apart : Apart n h h') : Course n names h₀ moves h'

/-- What holds after any moves: the state's subscribers are listeners, each as often as it is due, and
every number given stands for its subscription. -/
structure Counted (n : Nat) (names : Nat → Text) (moves : List Move) (h : Hub) : Prop where
  here : n < h.states.size
  sound : EachAfter Fits moves
  subscribers : ∃ ls : List Nat, (h.state n).subscribers = ls.map (listenerOf names) ∧
    ∀ l, ls.count l = due moves l
  numbered : ∀ k l, .subscribed k l ∈ moves → h.subscriptions[k]? = some ⟨n, listenerOf names l⟩

theorem same_listenerOf (s : Store) (names : Nat → Text) (l l' : Nat) :
    s.same (listenerOf names l) (listenerOf names l') = (l == l') := by
  simp only [Store.same, listenerOf, Store.tree_atom, Data.same, Atom.sameKey]
  by_cases hl : l = l'
  · subst hl
    simp
  · have hne : (Atom.object (.listener (names l)) l).keyForm ≠
        (Atom.object (.listener (names l')) l').keyForm := fun heq => hl (Atom.object.inj heq).2
    rw [beq_false_of_ne hne, beq_false_of_ne hl]

/-- Of subscribers that are listeners the first one that equals a listener is taken out. -/
theorem eraseP_listenerOf (s : Store) (names : Nat → Text) (ls : List Nat) (l : Nat) :
    (ls.map (listenerOf names)).eraseP (fun v => s.same v (listenerOf names l)) =
      (ls.erase l).map (listenerOf names) := by
  rw [List.eraseP_map, List.erase_eq_eraseP']
  congr 2
  funext l'
  exact same_listenerOf s names l' l

theorem state_modify {f : State → State} (hn : n < h.states.size) :
    (h.states.modify n f)[n]?.getD default = f (h.state n) := by
  simp [state, hn, Array.getElem_modify]

theorem Counted.subscribe (hc : Counted n names moves h)
    (gives : h.subscribe n (listenerOf names l) = (h', .object .function k)) :
    Counted n names (moves ++ [.subscribed k l]) h' := by
  obtain ⟨rfl, hk⟩ := Prod.mk.inj gives
  obtain rfl : h.subscriptions.size = k := by
    cases hk
    rfl
  obtain ⟨ls, hsubs, hcount⟩ := hc.subscribers
  refine ⟨by simpa using hc.here, eachAfter_concat.2 ⟨hc.sound, fun l' hl' => ?_⟩,
    ⟨ls ++ [l], ?_, fun l' => ?_⟩, fun k' l' hl' => ?_⟩
  · have hsome := hc.numbered _ l' hl'
    rw [Array.getElem?_eq_none (Nat.le_refl _)] at hsome
    cases hsome
  · rw [state, state_modify hc.here, hsubs, List.map_append]
    rfl
  · rw [Move.due_concat, List.count_append, hcount, List.count_singleton]
    by_cases hl : l = l' <;> simp [Move.after, hl]
  · rw [List.mem_append, List.mem_singleton] at hl'
    rcases hl' with hl' | hl'
    · have hsome := hc.numbered k' l' hl'
      obtain ⟨hlt, -⟩ := Array.getElem?_eq_some_iff.1 hsome
      exact (Array.getElem?_push_lt hlt).trans (Array.getElem?_eq_getElem hlt ▸ hsome)
    · cases hl'
      exact Array.getElem?_push_size

theorem Counted.callOff (hc : Counted n names moves h) (given : .subscribed k l ∈ moves)
    (ends : h.callOff (.object .function k) = (h', .ok .none)) :
    Counted n names (moves ++ [.calledOff k l]) h' := by
  obtain ⟨rfl, -⟩ := Prod.mk.inj ends
  obtain ⟨ls, hsubs, hcount⟩ := hc.subscribers
  have hsub := hc.numbered k l given
  have hun : h.unsubscribe k = { h with
      states := h.states.modify n fun st =>
        { st with subscribers :=
            st.subscribers.eraseP fun v => h.store.same v (listenerOf names l) } } := by
    rw [unsubscribe, hsub]
  rw [hun]
  refine ⟨by simpa using hc.here, eachAfter_concat.2 ⟨hc.sound, given⟩,
    ⟨ls.erase l, ?_, fun l' => ?_⟩, fun k' l' hl' => ?_⟩
  · rw [state, state_modify hc.here, hsubs, eraseP_listenerOf]
  · rw [Move.due_concat, List.count_erase, hcount]
    by_cases hl : l = l' <;> simp [Move.after, hl]
  · refine hc.numbered k' l' ?_
    simpa using hl'

theorem Counted.apart (hc : Counted n names moves h) (ha : Apart n h h') :
    Counted n names moves h' := by
  obtain ⟨ls, hsubs, hcount⟩ := hc.subscribers
  exact ⟨hc.here.trans_le ha.size, hc.sound, ⟨ls, ha.subscribers.trans hsubs, hcount⟩,
    fun k l hl => ha.subscriptions k _ (hc.numbered k l hl)⟩

/-- Whatever happens to the subscriptions of a state that had none at first, every listener is
subscribed as often as it is due. -/
theorem Course.counted (course : Course n names h₀ moves h) (hn : n < h₀.states.size)
    (hnone : (h₀.state n).subscribers = []) : Counted n names moves h := by
  induction course with
  | start => exact ⟨hn, eachAfter_nil, ⟨[], hnone, fun l => rfl⟩, fun k l hl => nomatch hl⟩
  | subscribe _ gives ih => exact ih.subscribe gives
  | callOff _ given ends ih => exact ih.callOff given ends
  | apart _ ha ih => exact ih.apart ha

theorem filterMap_listenerOf (names : Nat → Text) (ls : List Nat) :
    (ls.map (listenerOf names)).filterMap listener? = ls := by
  rw [List.filterMap_map]
  exact List.filterMap_some

/-- Listeners subscribe to a state that had no subscribers, and functions that end subscriptions are
called, some of them more than once.  The next time the state is refreshed, unless its storage has no
copy, every listener is called with the new storage as often as it is due, and if the moves were
orderly, as often as it has subscriptions whose own function has not been called. -/
theorem refresh_counts (hn : n < h₀.states.size) (hnone : (h₀.state n).subscribers = [])
    (course : Course n names h₀ moves h) :
    (∃ fault, h.store.clone (h.state n).storage.root = .error fault ∧
        h.refresh n = (h, .error fault)) ∨
      ∃ st h' new, h.refresh n = (h', .ok st) ∧ h'.events = h.events ++ new ∧
        ∀ l, (toldOf st new).count l = due moves l ∧
          (Orderly moves → (toldOf st new).count l = (live moves l).card) := by
  have hc := course.counted hn hnone
  obtain ⟨ls, hsubs, hcount⟩ := hc.subscribers
  have hlisteners : ∀ v ∈ (h.state n).subscribers, (listener? v).isSome := by
    intro v hv
    rw [hsubs, List.mem_map] at hv
    obtain ⟨l, -, rfl⟩ := hv
    rfl
  rcases refresh_told hc.here hlisteners with hfails | ⟨h₁, st, h', new, -, -, -, hr, hev, htold⟩
  · exact Or.inl hfails
  · rw [hsubs, filterMap_listenerOf] at htold
    refine Or.inr ⟨st, h', new, hr, hev, fun l => ?_⟩
    rw [htold, hcount]
    exact ⟨rfl, fun horderly => Move.due_eq_card_live hc.sound horderly l⟩

/-- A state and two listeners, not yet subscribed. -/
def audience : Hub :=
  let (h, n) := empty.newState .none
  let (h, _) := h.newListener ⟨"first", n, []⟩
  (h.newListener ⟨"second", n, []⟩).1

/-- The names of the two listeners. -/
def audienceNames : Nat → Text
  | 0 => "first"
  | _ => "second"

/-- The first listener is subscribed twice, with the second one in between. -/
def crowd : Hub :=
  let h := (audience.subscribe 0 (listenerOf audienceNames 0)).1
  let h := (h.subscribe 0 (listenerOf audienceNames 1)).1
  (h.subscribe 0 (listenerOf audienceNames 0)).1

theorem crowd_course : Course 0 audienceNames audience
    [.subscribed 0 0, .subscribed 1 1, .subscribed 2 0] crowd :=
  ((Course.start.subscribe (l := 0) rfl).subscribe (l := 1) rfl).subscribe (l := 0) rfl

/-- Both subscriptions of the first listener are ended, one of them a second time after that. -/
theorem refresh_counts_crowd :
    ∃ st h' new, (((crowd.unsubscribe 0).unsubscribe 2).unsubscribe 0).refresh 0 = (h', .ok st) ∧
      h'.events = crowd.events ++ new ∧ (toldOf st new).count 0 = 0 ∧
      (toldOf st new).count 1 = 1 := by
  have course : Course 0 audienceNames audience
      [.subscribed 0 0, .subscribed 1 1, .subscribed 2 0, .calledOff 0 0, .calledOff 2 0,
        .calledOff 0 0] (((crowd.unsubscribe 0).unsubscribe 2).unsubscribe 0) :=
    ((crowd_course.callOff (l := 0) (by decide) rfl).callOff (l := 0) (by decide) rfl).callOff
      (l := 0) (by decide) rfl
  have horderly : Orderly [.subscribed 0 0, .subscribed 1 1, .subscribed 2 0, .calledOff 0 0,
      .calledOff 2 0, .calledOff 0 0] := by
    have hgone : live [.subscribed 0 0, .subscribed 1 1, .subscribed 2 0, .calledOff 0 0,
        .calledOff 2 0] 0 = ∅ := by decide
    simpa [Orderly, eachAfter_cons, eachAfter_nil] using hgone
  have hcopy : ((((crowd.unsubscribe 0).unsubscribe 2).unsubscribe 0).refresh 0).2.isOk := by
    decide +kernel
  rcases refresh_counts (by decide) rfl course with ⟨fault, -, hr⟩ | ⟨st, h', new, hr, hev, htold⟩
  · rw [hr] at hcopy
    cases hcopy
  · refine ⟨st, h', new, hr, hev, ?_, ?_⟩
    · rw [(htold 0).2 horderly]
      rfl
    · rw [(htold 1).2 horderly]
      rfl

/-- Of the two subscriptions of the first listener the function of one is called twice.  The other
one is lost: its own function has not been called, yet only the second listener is told. -/
theorem refresh_forgets_subscription :
    Course 0 audienceNames audience [.subscribed 0 0, .subscribed 1 1, .subscribed 2 0,
        .calledOff 0 0, .calledOff 0 0] ((crowd.unsubscribe 0).unsubscribe 0) ∧
      live [.subscribed 0 0, .subscribed 1 1, .subscribed 2 0, .calledOff 0 0, .calledOff 0 0] 0 =
        {2} ∧
      ∃ st, (((crowd.unsubscribe 0).unsubscribe 0).refresh 0).2 = .ok st ∧
        toldOf st (((crowd.unsubscribe 0).unsubscribe 0).refresh 0).1.events = [1] := by
  refine ⟨?_, by decide, _, rfl, by decide +kernel⟩
  exact (crowd_course.callOff (l := 0) (by decide) rfl).callOff (l := 0) (by decide) rfl

end Hub

end PathStore
