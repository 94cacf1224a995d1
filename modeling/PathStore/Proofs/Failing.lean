import PathStore.Proofs.Lookups

/-!
# Factories that fail

A factory leaves its registry before it runs, and a lookup that fails does not put it back.  What is
done with a key of a registry says whether the registry contains it (`Deed.holds`,
`Hub.Goes.contains_eq`, `Hub.Onward.contains_eq`): a factory that begins takes its key away, and
only registering something under the key, or keeping a service that a factory gave under it, puts it
there.  Hence where a lookup has failed, the key is gone until something is put under it again, and
so are the keys of the factories that failed in lookups nested in it (`Hub.resolve_of_failing`).
-/

namespace PathStore

/-- Whether a registry contains a key after a deed, if `held` says so of the time before. -/
def Deed.holds (n : Nat) (key : Text) (held : Bool) : Deed → Bool
  | .registered n' key' | .supplied n' key' _ | .gave n' key' _ =>
    decide (n' = n ∧ key' = key) || held
  | .began n' key' _ | .unregistered n' key' => !decide (n' = n ∧ key' = key) && held
  | .failed .. => held

/-- The deed puts a service or a factory under a key of a registry. -/
def Deed.Puts (n : Nat) (key : Text) (deed : Deed) : Prop :=
  deed.holds n key false = true

namespace Hub

variable {n n' m k : Nat} {h h' h'' h₀ : Hub} {key key' : Text} {job : Job}
  {deeds deeds' : List Deed} {r : Except Fault Value} {f : Registry → Registry} {fault : Fault}

/-- What can be done with registries from the first hub on: the deeds, which lead to the second hub.
Registries are added, services and factories of every kind are registered in them and taken away,
and services are looked up. -/
inductive Onward (h₀ : Hub) : List Deed → Hub → Prop
  | start : Onward h₀ [] h₀
  | register {deeds : List Deed} {h : Hub} (n : Nat) (key : Text) (v : Value)
      (onward : Onward h₀ deeds h) :
      Onward h₀ (deeds ++ [.registered n key]) (h.modifyRegistry n fun r => r.register key v)
  | supply {deeds : List Deed} {h : Hub} (n : Nat) (key : Text) (f : Factory)
      (onward : Onward h₀ deeds h) :
      Onward h₀ (deeds ++ [.supplied n key h.factories.size]) (h.registerFactory n key f)
  | unregister {deeds : List Deed} {h : Hub} (n : Nat) (key : Text) (onward : Onward h₀ deeds h) :
      Onward h₀ (deeds ++ [.unregistered n key]) (h.modifyRegistry n fun r => r.unregister key)
  | get {deeds deeds' : List Deed} {h : Hub} {n : Nat} {key : Text} (onward : Onward h₀ deeds h)
      (goes : Goes h (.get n key) deeds' (h.resolve n key).1 (h.resolve n key).2) :
      Onward h₀ (deeds ++ deeds') (h.resolve n key).1
  | addRegistry {deeds : List Deed} {h : Hub} (onward : Onward h₀ deeds h) :
      Onward h₀ deeds { h with store := (h.store.addRegistry .empty).1 }
  | aside {deeds : List Deed} {h h' : Hub} (onward : Onward h₀ deeds h)
      (registries : h'.store.registries = h.store.registries)
      (factories : h'.factories = h.factories) : Onward h₀ deeds h'

theorem Numbered.of_registries (hk : h.Numbered)
    (registries : h'.store.registries = h.store.registries)
    (factories : h'.factories = h.factories) : h'.Numbered := by
  intro n e he
  rw [Store.registry, registries] at he
  rw [factories]
  exact hk n e he

theorem registry_addRegistry (h : Hub) (n : Nat) :
    (h.store.addRegistry .empty).1.registry n = h.store.registry n := by
  simp only [Store.addRegistry, Store.registry, Array.getElem?_push]
  by_cases hn : n = h.store.registries.size
  · subst hn
    simp
  · rw [if_neg hn]

theorem Onward.numbered (o : Onward h₀ deeds h) (hk : h₀.Numbered) : h.Numbered := by
  induction o with
  | start => exact hk
  | register n key v _ ih => exact ih.register n key v
  | supply n key f _ ih => exact ih.registerFactory n key f
  | unregister n key _ ih => exact ih.unregister n key
  | get _ goes ih => exact goes.numbered ih
  | addRegistry _ ih =>
    intro n e he
    rw [registry_addRegistry] at he
    exact ih n e he
  | aside _ registries factories ih => exact ih.of_registries registries factories

theorem empty_numbered : empty.Numbered := nofun

/-! ## Keys that a registry contains -/

/-- A change of a registry that leaves other keys as they are changes no other key of any registry. -/
theorem contains_modifyRegistry (held : Bool → Bool → Bool) (hother : ∀ b, held false b = b)
    (hn : n' < h.store.registries.size)
    (hf : (f (h.store.registry n)).contains key' =
      held (decide (key = key')) ((h.store.registry n).contains key')) :
    ((h.modifyRegistry n f).store.registry n').contains key' =
      held (decide (n = n' ∧ key = key')) ((h.store.registry n').contains key') := by
  by_cases heq : n = n'
  · subst heq
    rw [registry_modifyRegistry hn, hf]
    simp
  · have hreg := (h.registry_modifyRegistry_cases n f n').resolve_left fun hsame => heq hsame.1
    rw [hreg, decide_eq_false fun hsame => heq hsame.1, hother]

/-- A change that puts something under a key of a registry puts it there and nowhere else. -/
theorem contains_modifyRegistry_of_puts (hn : n' < h.store.registries.size)
    (hf : (f (h.store.registry n)).contains key' =
      (decide (key = key') || (h.store.registry n).contains key')) :
    ((h.modifyRegistry n f).store.registry n').contains key' =
      (decide (n = n' ∧ key = key') || (h.store.registry n').contains key') :=
  contains_modifyRegistry (· || ·) (fun _ => rfl) hn hf

/-- A change that takes a key away from a registry takes away this one only. -/
theorem contains_modifyRegistry_of_takes (hn : n' < h.store.registries.size)
    (hf : (f (h.store.registry n)).contains key' =
      (!decide (key = key') && (h.store.registry n).contains key')) :
    ((h.modifyRegistry n f).store.registry n').contains key' =
      (!decide (n = n' ∧ key = key') && (h.store.registry n').contains key') :=
  contains_modifyRegistry (fun here b => !here && b) (fun _ => rfl) hn hf

theorem contains_registerFactory (hn : n' < h.store.registries.size) (n : Nat) (key key' : Text)
    (f : Factory) : ((h.registerFactory n key f).store.registry n').contains key' =
      (decide (n = n' ∧ key = key') || (h.store.registry n').contains key') :=
  contains_modifyRegistry_of_puts (h := (h.newFactory f).1) hn
    (Registry.contains_registerFactory _ _ _ _)

theorem contains_begun (hn : n' < h.store.registries.size)
    (hready : (h.store.registry n).ready.lookup key = none) (key' : Text) (m : Nat) :
    ((h.begun n key m).store.registry n').contains key' =
      (!decide (n = n' ∧ key = key') && (h.store.registry n').contains key') :=
  contains_modifyRegistry_of_takes hn (Registry.contains_take _ _ _ hready)

theorem contains_kept (hn : n' < h.store.registries.size) (n : Nat) (key key' : Text) (v : Value) :
    ((h.kept n key v).store.registry n').contains key' =
      (decide (n = n' ∧ key = key') || (h.store.registry n').contains key') :=
  contains_modifyRegistry_of_puts hn (Registry.contains_keep _ _ _ _)

theorem registries_of_built {t : Template} (built : h.build t = (h', r)) :
    h'.store.registries = h.store.registries := by
  rw [← registries_build h t, built]

theorem Goes.size_eq (g : Goes h job deeds h' r) :
    h'.store.registries.size = h.store.registries.size := by
  induction g with
  | found | missed | hand | fail => rfl
  | give => rw [registries_build]
  | gave _ _ _ ih => rw [size_kept, ih, size_begun]
  | failed _ _ _ ih => rw [ih, size_begun]
  | resolve _ _ ih ih' => rw [ih', ih]
  | test _ ih => exact ih
  | unregister _ ih => rw [ih, size_modifyRegistry]
  | register built _ ih => rw [ih, size_modifyRegistry, registries_of_built built]
  | unbuilt unbuilt => rw [registries_of_built unbuilt]
  | supply _ ih => rw [ih, size_registerFactory]

/-- What is done while a job is done says which keys a registry contains afterwards. -/
theorem Goes.contains_eq (g : Goes h job deeds h' r) (hn : n < h.store.registries.size) :
    (h'.store.registry n).contains key =
      deeds.foldl (Deed.holds n key) ((h.store.registry n).contains key) := by
  induction g with
  | found | missed | hand | fail => rfl
  | give => rw [registry_build, List.foldl_nil]
  | @gave h h' n' m key' deeds v ready _ run ih =>
    have hrun := ih (by rwa [size_begun])
    rw [contains_begun hn ready key m] at hrun
    rw [contains_kept (by rwa [run.size_eq, size_begun]), hrun]
    simp [Deed.holds]
  | @failed h h' n' m key' deeds fault ready _ _ ih =>
    rw [ih (by rwa [size_begun]), contains_begun hn ready key m]
    simp [Deed.holds]
  | resolve asked _ ih ih' =>
    rw [List.foldl_append, ih' (by rwa [asked.size_eq]), ih hn]
  | test _ ih => exact ih hn
  | @unregister h h' home k key' next deeds outcome _ ih =>
    rw [ih (by rwa [size_modifyRegistry]), contains_modifyRegistry_of_takes hn
      (Registry.contains_unregister _ key' key)]
    rfl
  | @register h h' h'' home k key' service next v deeds outcome built _ ih =>
    have hregistries := registries_of_built built
    have hn' : n < h'.store.registries.size := by rwa [hregistries]
    rw [ih (by rwa [size_modifyRegistry]), contains_modifyRegistry_of_puts hn'
      (Registry.contains_register _ key' key v), Store.registry, hregistries]
    rfl
  | unbuilt unbuilt =>
    rw [List.foldl_nil, Store.registry, registries_of_built unbuilt, Store.registry]
  | @supply h h' home m l k bound key' name later next deeds outcome _ ih =>
    rw [ih (by rwa [size_registerFactory]), contains_registerFactory hn]
    rfl

theorem Onward.size_le (o : Onward h₀ deeds h) :
    h₀.store.registries.size ≤ h.store.registries.size := by
  induction o with
  | start => exact Nat.le_refl _
  | register _ _ _ _ ih | unregister _ _ _ ih => rwa [size_modifyRegistry]
  | supply _ _ _ _ ih => rwa [size_registerFactory]
  | get _ goes ih => rwa [goes.size_eq]
  | addRegistry _ ih =>
    simp only [Store.addRegistry, Array.size_push]
    exact Nat.le_succ_of_le ih
  | aside _ registries _ ih => rwa [registries]

/-- Whatever is done with registries says which keys each of them contains. -/
theorem Onward.contains_eq (o : Onward h₀ deeds h) (hn : n < h₀.store.registries.size) :
    (h.store.registry n).contains key =
      deeds.foldl (Deed.holds n key) ((h₀.store.registry n).contains key) := by
  induction o with
  | start => rfl
  | register n' key' v onward ih =>
    rw [contains_modifyRegistry_of_puts (hn.trans_le onward.size_le)
      (Registry.contains_register _ key' key v), List.foldl_append, ← ih]
    rfl
  | supply n' key' f onward ih =>
    rw [contains_registerFactory (hn.trans_le onward.size_le), List.foldl_append, ← ih]
    rfl
  | unregister n' key' onward ih =>
    rw [contains_modifyRegistry_of_takes (hn.trans_le onward.size_le)
      (Registry.contains_unregister _ key' key), List.foldl_append, ← ih]
    rfl
  | get onward goes ih =>
    rw [List.foldl_append, goes.contains_eq (hn.trans_le onward.size_le), ih]
  | addRegistry _ ih => rw [registry_addRegistry, ih]
  | aside _ registries _ ih => rw [← ih, Store.registry, registries, Store.registry]

/-! ## Keys that are gone -/

/-- A key that a factory's run has begun with is in the registry no more at that time. -/
theorem foldl_holds_of_began (n : Nat) (key : Text) (m : Nat) (before after : List Deed)
    (held : Bool) : (before ++ .began n key m :: after).foldl (Deed.holds n key) held =
      after.foldl (Deed.holds n key) false := by
  simp [Deed.holds]

/-- A key that is not there stays away unless something is put under it. -/
theorem foldl_holds_of_not_puts (hno : ∀ deed ∈ deeds, ¬ deed.Puts n key) :
    deeds.foldl (Deed.holds n key) false = false := by
  induction deeds with
  | nil => rfl
  | cons deed deeds ih =>
    rw [List.forall_mem_cons] at hno
    rw [List.foldl_cons, Bool.eq_false_iff.2 hno.1]
    exact ih hno.2

/-- Only a registry that exists has a factory run. -/
theorem Goes.lt_of_began (g : Goes h job deeds h' r) (hbegan : .began n key m ∈ deeds) :
    n < h.store.registries.size := by
  induction g with
  | found | missed | hand | fail | give | unbuilt => cases hbegan
  | gave _ pending _ ih | failed _ pending _ ih =>
    rw [List.mem_cons, List.mem_append, List.mem_singleton] at hbegan
    rcases hbegan with heq | hrun | heq
    · cases heq
      exact lt_of_pending pending
    · rw [← size_begun]
      exact ih hrun
    · cases heq
  | resolve asked _ ih ih' =>
    rcases List.mem_append.1 hbegan with hasked | hrest
    · exact ih hasked
    · rw [← asked.size_eq]
      exact ih' hrest
  | test _ ih => exact ih hbegan
  | unregister _ ih =>
    rw [← size_modifyRegistry]
    exact ih ((List.mem_cons.1 hbegan).resolve_left nofun)
  | register built _ ih =>
    have hlt := ih ((List.mem_cons.1 hbegan).resolve_left nofun)
    rwa [size_modifyRegistry, registries_of_built built] at hlt
  | supply _ ih =>
    have hlt := ih ((List.mem_cons.1 hbegan).resolve_left nofun)
    rwa [size_registerFactory] at hlt

/-- A lookup whose factory fails lets the fault through and puts nothing back.  From the time when
the factory began, and likewise each factory that was run in a lookup nested in this one, its
registry contains its key exactly as what has been done with the key since then says, whatever that
is; while nothing has been put under it, looking it up does nothing but fail. -/
theorem resolve_of_failing (past : Onward empty deeds h)
    (ready : (h.store.registry n).ready.lookup key = none)
    (pending : (h.store.registry n).factories.lookup key = some m)
    (run : Goes (h.begun n key m) (.follow (h.factory m).home (h.factory m).recipe) deeds' h'
      (.error fault)) :
    h.resolve n key = (h', .error fault) ∧
      ∀ k name failed before after,
        .began n key m :: (deeds' ++ [.failed n key m fault]) =
          before ++ .began k name failed :: after →
        ∀ later h'', Onward h' later h'' →
          (h''.store.registry k).contains name =
            (after ++ later).foldl (Deed.holds k name) false ∧
          ((∀ deed ∈ after ++ later, ¬ deed.Puts k name) →
            h''.resolve k name = (h'', .error (.unknownService name))) := by
  have hk := past.numbered empty_numbered
  have goes : Goes h (.get n key) (.began n key m :: (deeds' ++ [.failed n key m fault])) h'
      (.error fault) := .failed ready pending run
  refine ⟨goes.resolve_eq hk, fun k name failed before after hsplit later h'' onward => ?_⟩
  have hbegan : .began k name failed ∈ .began n key m :: (deeds' ++ [.failed n key m fault]) := by
    simp [hsplit]
  have hn := goes.lt_of_began hbegan
  have hheld : (h''.store.registry k).contains name =
      (after ++ later).foldl (Deed.holds k name) false := by
    rw [onward.contains_eq (by rwa [goes.size_eq]), goes.contains_eq hn, hsplit,
      foldl_holds_of_began, List.foldl_append]
  refine ⟨hheld, fun hno => ?_⟩
  rw [foldl_holds_of_not_puts hno] at hheld
  obtain ⟨hready, hpending⟩ := Registry.contains_eq_false_iff.1 hheld
  exact (Goes.missed hready hpending).resolve_eq (onward.numbered (goes.numbered hk))

/-- A registry with a factory that fails, and one that looks up what it makes. -/
def ruinous : Hub :=
  (vacant.registerFactory 0 "a" dependent).registerFactory 0 "b"
    ⟨"second", 0, 0, .fail (.failure "boom")⟩

theorem ruinous_onward : Onward empty [.supplied 0 "a" 0, .supplied 0 "b" 1] ruinous :=
  (Onward.start.addRegistry.supply 0 "a" dependent).supply 0 "b"
    ⟨"second", 0, 0, .fail (.failure "boom")⟩

/-- The lookup fails in the factory that it meets second.  Both keys are gone. -/
theorem resolve_of_failing_nested :
    ∃ h', ruinous.resolve 0 "a" = (h', .error (.failure "boom")) ∧ h'.made = ["first", "second"] ∧
      h'.resolve 0 "a" = (h', .error (.unknownService "a")) ∧
      h'.resolve 0 "b" = (h', .error (.unknownService "b")) := by
  have second : Goes ((ruinous.begun 0 "a" 0).begun 0 "b" 1) (.follow (k := 0) 0
      (.fail (.failure "boom"))) [] ((ruinous.begun 0 "a" 0).begun 0 "b" 1)
      (.error (.failure "boom")) := .fail
  have asked : Goes (ruinous.begun 0 "a" 0) (.get 0 "b")
      (.began 0 "b" 1 :: ([] ++ [.failed 0 "b" 1 (.failure "boom")]))
      ((ruinous.begun 0 "a" 0).begun 0 "b" 1) (.error (.failure "boom")) :=
    .failed rfl rfl second
  have run : Goes (ruinous.begun 0 "a" 0) (.follow 0 dependent.recipe)
      ([.began 0 "b" 1, .failed 0 "b" 1 (.failure "boom")] ++ [])
      ((ruinous.begun 0 "a" 0).begun 0 "b" 1) (.error (.failure "boom")) :=
    .resolve asked .fail
  have hpending : (ruinous.store.registry 0).factories.lookup ("a" : Text) = some 0 := rfl
  obtain ⟨hresolve, hlost⟩ := resolve_of_failing ruinous_onward rfl hpending run
  refine ⟨_, hresolve, rfl, ?_, ?_⟩
  · exact (hlost 0 "a" 0 [] _ rfl _ _ .start).2 (by simp [Deed.Puts, Deed.holds])
  · exact (hlost 0 "b" 1 [_] _ rfl _ _ .start).2 (by simp [Deed.Puts, Deed.holds])

/-- A factory that fails is gone: its key was in the registry before, is not there afterwards, and
looking it up again does not run the factory. -/
theorem resolve_loses_service :
    (ruinous.store.registry 0).contains "b" = true ∧
      (ruinous.resolve 0 "b").2 = .error (.failure "boom") ∧
      (((ruinous.resolve 0 "b").1).store.registry 0).contains "b" = false ∧
      ((ruinous.resolve 0 "b").1.resolve 0 "b").2 = .error (.unknownService "b") ∧
      ((ruinous.resolve 0 "b").1.resolve 0 "b").1.made = ["second"] :=
  ⟨rfl, rfl, rfl, rfl, rfl⟩

end Hub

end PathStore
