import Mathlib
import PathStore.Proofs.Resolution

/-!
# Lookups by factories of every kind

A factory can ask for services and register further ones, in any registry that is its home.  What a
lookup comes to is described without a depth, together with what is done in the meantime in all
registries (`Hub.Goes`).  A factory leaves its registry before it runs and registers no more than it
was counted with (`Hub.unmade`), so what it asks for meets fewer factories in all registries together;
as many levels as are counted are enough, and every lookup ends in one way (`Hub.exists_goes`,
`Hub.Goes.unique`).
-/

namespace PathStore

/-- What is done in the registries, which are known by their numbers, while services are looked up:
factories are run, each until it gives a service or fails, services and factories are registered, and
services are taken away. -/
inductive Deed where
  | began (registry : Nat) (key : Text) (factory : Nat)
  | gave (registry : Nat) (key : Text) (factory : Nat)
  | failed (registry : Nat) (key : Text) (factory : Nat) (fault : Fault)
  | registered (registry : Nat) (key : Text)
  | supplied (registry : Nat) (key : Text) (factory : Nat)
  | unregistered (registry : Nat) (key : Text)

namespace Hub

/-- What is done to find a service. -/
inductive Job where
  | get (registry : Nat) (key : Text)
  | follow (home : Nat) {k : Nat} (recipe : Recipe k)

/-- Doing a job in the first hub consists in the deeds, and leads to the second hub and to the
outcome. -/
inductive Goes : Hub → Job → List Deed → Hub → Except Fault Value → Prop
  | found {h : Hub} {n : Nat} {key : Text} {v : Value}
      (ready : (h.store.registry n).ready.lookup key = some v) : Goes h (.get n key) [] h (.ok v)
  | missed {h : Hub} {n : Nat} {key : Text}
      (ready : (h.store.registry n).ready.lookup key = none)
      (pending : (h.store.registry n).factories.lookup key = none) :
      Goes h (.get n key) [] h (.error (.unknownService key))
  | gave {h h' : Hub} {n m : Nat} {key : Text} {deeds : List Deed} {v : Value}
      (ready : (h.store.registry n).ready.lookup key = none)
      (pending : (h.store.registry n).factories.lookup key = some m)
      (run : Goes (h.begun n key m) (.follow (h.factory m).home (h.factory m).recipe) deeds h'
        (.ok v)) :
      Goes h (.get n key) (.began n key m :: (deeds ++ [.gave n key m])) (h'.kept n key v) (.ok v)
  | failed {h h' : Hub} {n m : Nat} {key : Text} {deeds : List Deed} {fault : Fault}
      (ready : (h.store.registry n).ready.lookup key = none)
      (pending : (h.store.registry n).factories.lookup key = some m)
      (run : Goes (h.begun n key m) (.follow (h.factory m).home (h.factory m).recipe) deeds h'
        (.error fault)) :
      Goes h (.get n key) (.began n key m :: (deeds ++ [.failed n key m fault])) h' (.error fault)
  | give {h : Hub} {home k : Nat} {service : Template} :
      Goes h (.follow home (.give (k := k) service)) [] (h.build service).1 (h.build service).2
  | hand {h : Hub} {home k : Nat} {v : Value} :
      Goes h (.follow home (.hand (k := k) v)) [] h (.ok v)
  | fail {h : Hub} {home k : Nat} {fault : Fault} :
      Goes h (.follow home (.fail (k := k) fault)) [] h (.error fault)
  | resolve {h h' h'' : Hub} {home k : Nat} {key : Text} {next : Except Fault Value → Recipe k}
      {deeds deeds' : List Deed} {answer outcome : Except Fault Value}
      (asked : Goes h (.get home key) deeds h' answer)
      (rest : Goes h' (.follow home (next answer)) deeds' h'' outcome) :
      Goes h (.follow home (.resolve key next)) (deeds ++ deeds') h'' outcome
  | test {h h' : Hub} {home k : Nat} {key : Text} {next : Bool → Recipe k} {deeds : List Deed}
      {outcome : Except Fault Value}
      (rest : Goes h (.follow home (next ((h.store.registry home).contains key))) deeds h' outcome) :
      Goes h (.follow home (.test key next)) deeds h' outcome
  | unregister {h h' : Hub} {home k : Nat} {key : Text} {next : Recipe k} {deeds : List Deed}
      {outcome : Except Fault Value}
      (rest : Goes (h.modifyRegistry home fun r => r.unregister key) (.follow home next) deeds h'
        outcome) :
      Goes h (.follow home (.unregister key next)) (.unregistered home key :: deeds) h' outcome
  | register {h h' h'' : Hub} {home k : Nat} {key : Text} {service : Template} {next : Recipe k}
      {v : Value} {deeds : List Deed} {outcome : Except Fault Value}
      (built : h.build service = (h', .ok v))
      (rest : Goes (h'.modifyRegistry home fun r => r.register key v) (.follow home next) deeds h''
        outcome) :
      Goes h (.follow home (.register key service next)) (.registered home key :: deeds) h'' outcome
  | unbuilt {h h' : Hub} {home k : Nat} {key : Text} {service : Template} {next : Recipe k}
      {fault : Fault} (unbuilt : h.build service = (h', .error fault)) :
      Goes h (.follow home (.register key service next)) [] h' (.error fault)
  | supply {h h' : Hub} {home m l k : Nat} {bound : m + 1 + l ≤ k} {key name : Text}
      {later : Recipe m} {next : Recipe l} {deeds : List Deed} {outcome : Except Fault Value}
      (rest : Goes (h.registerFactory home key ⟨name, home, m, later⟩) (.follow home next) deeds h'
        outcome) :
      Goes h (.follow home (.supply bound key name later next))
        (.supplied home key h.factories.size :: deeds) h' outcome

variable {n m : Nat} {h h' h₁ h₂ : Hub} {key : Text} {job : Job} {deeds deeds' : List Deed}
  {r r' : Except Fault Value} {again : Resolver} {f : Registry → Registry}

/-! ## One registry and the others -/

theorem registry_of_size_le (hn : h.store.registries.size ≤ n) : h.store.registry n = .empty := by
  rw [Store.registry, Array.getElem?_eq_none hn]
  rfl

/-- A change of one registry leaves the others alone, and all of them if there is no such one. -/
theorem registry_modifyRegistry_cases (h : Hub) (n : Nat) (f : Registry → Registry) (n' : Nat) :
    n = n' ∧ (h.modifyRegistry n f).store.registry n' = f (h.store.registry n') ∨
      (h.modifyRegistry n f).store.registry n' = h.store.registry n' := by
  by_cases hn : n < h.store.registries.size
  · by_cases heq : n = n'
    · subst heq
      exact Or.inl ⟨rfl, registry_modifyRegistry hn⟩
    · right
      simp [modifyRegistry, Store.modifyRegistry, Store.registry, Array.getElem?_modify, heq]
  · right
    have hle : h.store.registries.size ≤ n := Nat.le_of_not_lt hn
    by_cases hn' : n' < h.store.registries.size
    · have hne : n ≠ n' := fun heq => hn (heq ▸ hn')
      simp [modifyRegistry, Store.modifyRegistry, Store.registry, Array.getElem?_modify, hne]
    · have hle' : h.store.registries.size ≤ n' := Nat.le_of_not_lt hn'
      rw [registry_of_size_le hle', registry_of_size_le (by rwa [size_modifyRegistry])]

/-- A registry that holds a factory exists. -/
theorem lt_of_pending (hpending : (h.store.registry n).factories.lookup key = some m) :
    n < h.store.registries.size := by
  by_contra hn
  rw [registry_of_size_le (Nat.le_of_not_lt hn)] at hpending
  cases hpending

/-! ## Factories that the hub knows -/

/-- All registered factories are known to the hub. -/
def Numbered (h : Hub) : Prop :=
  ∀ n, ∀ e ∈ (h.store.registry n).factories, e.2 < h.factories.size

theorem Numbered.modifyRegistry (hk : h.Numbered) (n : Nat)
    (hf : ∀ reg, ∀ e ∈ (f reg).factories, e ∈ reg.factories ∨ e.2 < h.factories.size) :
    (h.modifyRegistry n f).Numbered := by
  intro n' e he
  rcases h.registry_modifyRegistry_cases n f n' with ⟨-, hreg⟩ | hreg
  · rw [hreg] at he
    exact (hf _ e he).elim (hk n' e) id
  · rw [hreg] at he
    exact hk n' e he

theorem Numbered.take (hk : h.Numbered) (n : Nat) (key : Text) (m : Nat) :
    (h.begun n key m).Numbered :=
  hk.modifyRegistry n fun _ _ he => Or.inl (List.mem_of_mem_filter he)

theorem Numbered.kept (hk : h.Numbered) (n : Nat) (key : Text) (v : Value) :
    (h.kept n key v).Numbered :=
  hk.modifyRegistry n fun _ _ he => Or.inl he

theorem Numbered.register (hk : h.Numbered) (n : Nat) (key : Text) (v : Value) :
    (h.modifyRegistry n fun r => r.register key v).Numbered :=
  hk.modifyRegistry n fun _ _ he => Or.inl (List.mem_of_mem_filter he)

theorem Numbered.unregister (hk : h.Numbered) (n : Nat) (key : Text) :
    (h.modifyRegistry n fun r => r.unregister key).Numbered :=
  hk.modifyRegistry n fun _ _ he => Or.inl (List.mem_of_mem_filter he)

theorem Numbered.newFactory (hk : h.Numbered) (f : Factory) : (h.newFactory f).1.Numbered := by
  intro n e he
  simp only [Hub.newFactory, Array.size_push]
  exact Nat.lt_succ_of_lt (hk n e he)

/-- A factory that is registered gets a number of its own. -/
theorem Numbered.registerFactory (hk : h.Numbered) (n : Nat) (key : Text) (f : Factory) :
    (h.registerFactory n key f).Numbered := by
  refine (hk.newFactory f).modifyRegistry n fun reg e he => ?_
  rcases List.mem_append.1 he with hold | hnew
  · exact Or.inl (List.mem_of_mem_filter hold)
  · obtain rfl := List.mem_singleton.1 hnew
    simp [Hub.newFactory]

theorem Numbered.build (hk : h.Numbered) (t : Template) : (h.build t).1.Numbered := by
  intro n e he
  rw [registry_build] at he
  exact hk n e he

theorem Numbered.of_built {t : Template} (hk : h.Numbered) (built : h.build t = (h', r)) :
    h'.Numbered := by
  have hbuild := hk.build t
  rwa [built] at hbuild

/-- The factories stay known whatever is done. -/
theorem Goes.numbered (g : Goes h job deeds h' r) (hk : h.Numbered) : h'.Numbered := by
  induction g with
  | found | missed | hand | fail => exact hk
  | give => exact hk.build _
  | gave _ _ _ ih => exact (ih (hk.take _ _ _)).kept _ _ _
  | failed _ _ _ ih => exact ih (hk.take _ _ _)
  | resolve _ _ ih ih' => exact ih' (ih hk)
  | test _ ih => exact ih hk
  | unregister _ ih => exact ih (hk.unregister _ _)
  | register built _ ih => exact ih ((hk.of_built built).register _ _ _)
  | unbuilt unbuilt => exact hk.of_built unbuilt
  | supply _ ih => exact ih (hk.registerFactory _ _ _)

/-! ## Factories that have not run -/

theorem unmade_modifyRegistry (hn : n < h.store.registries.size) (f : Registry → Registry) :
    (h.modifyRegistry n f).unmade + h.unmadeIn (h.store.registry n) =
      h.unmade + h.unmadeIn (f (h.store.registry n)) := by
  have hreg : h.store.registry n = h.store.registries.toList[n] := by
    simp [Store.registry, hn]
  have hsplit : h.store.registries.toList = h.store.registries.toList.take n ++
      h.store.registry n :: h.store.registries.toList.drop (n + 1) := by
    rw [hreg, List.getElem_cons_drop, List.take_append_drop]
  have hmodify : (h.modifyRegistry n f).store.registries.toList =
      h.store.registries.toList.take n ++
        f (h.store.registry n) :: h.store.registries.toList.drop (n + 1) := by
    rw [hreg]
    simp only [modifyRegistry, Store.modifyRegistry, Array.toList_modify]
    exact List.modify_eq_take_cons_drop (by simpa using hn)
  -- the factories that a number stands for are the same
  have hsame : (h.modifyRegistry n f).unmadeIn = h.unmadeIn := rfl
  rw [unmade_eq, unmade_eq, hmodify, hsame]
  conv_rhs => rw [hsplit]
  simp only [List.map_append, List.map_cons, List.sum_append, List.sum_cons]
  omega

/-- A change of a registry adds as many factories as it adds to this registry. -/
theorem unmade_modifyRegistry_le (extra : Nat)
    (hf : ∀ reg, h.unmadeIn (f reg) ≤ h.unmadeIn reg + extra) :
    (h.modifyRegistry n f).unmade ≤ h.unmade + extra := by
  by_cases hn : n < h.store.registries.size
  · have hsum := unmade_modifyRegistry hn f
    have hle := hf (h.store.registry n)
    omega
  · have hsame : (h.modifyRegistry n f).unmadeIn = h.unmadeIn := rfl
    rw [unmade, hsame, modifyRegistry, Store.modifyRegistry, Array.toList_modify,
      List.modify_eq_self (Nat.le_of_not_lt hn)]
    exact Nat.le_add_right _ _

/-- Dropping a key from the factories of a registry leaves no more of them. -/
theorem sum_dropKey_le (weight : Text × Nat → Nat) (key : Text) (pairs : List (Text × Nat)) :
    ((Registry.dropKey key pairs).map weight).sum ≤ (pairs.map weight).sum :=
  (List.filter_sublist.map weight).sum_le_sum fun _ _ => Nat.zero_le _

theorem unmadeIn_le_of_dropKey {reg reg' : Registry} (h : Hub)
    (hdrop : reg'.factories = Registry.dropKey key reg.factories) :
    h.unmadeIn reg' ≤ h.unmadeIn reg := by
  rw [unmadeIn_eq, unmadeIn_eq, hdrop]
  exact sum_dropKey_le _ key reg.factories

theorem unmade_build (h : Hub) (t : Template) : (h.build t).1.unmade = h.unmade := by
  rw [unmade, registries_build]
  rfl

theorem unmade_register_le (h : Hub) (n : Nat) (key : Text) (v : Value) :
    (h.modifyRegistry n fun r => r.register key v).unmade ≤ h.unmade :=
  unmade_modifyRegistry_le 0 fun _ => h.unmadeIn_le_of_dropKey rfl

theorem unmade_unregister_le (h : Hub) (n : Nat) (key : Text) :
    (h.modifyRegistry n fun r => r.unregister key).unmade ≤ h.unmade :=
  unmade_modifyRegistry_le 0 fun _ => h.unmadeIn_le_of_dropKey rfl

theorem unmade_kept_le (h : Hub) (n : Nat) (key : Text) (v : Value) :
    (h.kept n key v).unmade ≤ h.unmade :=
  unmade_modifyRegistry_le 0 fun _ => Nat.le_refl _

theorem unmade_newFactory (hk : h.Numbered) (f : Factory) : (h.newFactory f).1.unmade = h.unmade := by
  rw [unmade_eq, unmade_eq]
  refine congrArg List.sum (List.map_congr_left fun reg hreg => ?_)
  obtain ⟨n, hn, rfl⟩ := List.mem_iff_getElem.1 hreg
  rw [unmadeIn_eq, unmadeIn_eq]
  refine congrArg List.sum (List.map_congr_left fun e he => ?_)
  have hlt : e.2 < h.factories.size := by
    refine hk n e ?_
    rw [Store.registry, Array.getElem?_eq_getElem (by simpa [newFactory] using hn)]
    exact he
  simp [factory, newFactory, Array.getElem?_push, hlt.ne]

theorem unmade_registerFactory_le (hk : h.Numbered) (n : Nat) (key : Text) (f : Factory) :
    (h.registerFactory n key f).unmade ≤ h.unmade + (f.supplies + 1) := by
  have hnew : (h.newFactory f).1.factory h.factories.size = f := by simp [factory, newFactory]
  have hreg : ∀ reg : Registry,
      (h.newFactory f).1.unmadeIn (reg.registerFactory key h.factories.size) ≤
        (h.newFactory f).1.unmadeIn reg + (f.supplies + 1) := by
    intro reg
    have hdrop := sum_dropKey_le (fun e => ((h.newFactory f).1.factory e.2).supplies + 1) key
      reg.factories
    simp only [unmadeIn_eq, Registry.registerFactory, Registry.setKey, List.map_append,
      List.sum_append, List.map_singleton, List.sum_singleton, hnew]
    exact Nat.add_le_add_right hdrop _
  rw [← unmade_newFactory hk f]
  exact unmade_modifyRegistry_le _ hreg

/-- A factory that runs is among the others no more, nor are those that can come of it. -/
theorem unmade_begun_lt (hpending : (h.store.registry n).factories.lookup key = some m) :
    (h.begun n key m).unmade + (h.factory m).supplies < h.unmade := by
  have hsum := unmade_modifyRegistry (lt_of_pending hpending) fun r => r.take key
  have heq : (h.begun n key m).unmade = (h.modifyRegistry n fun r => r.take key).unmade := rfl
  obtain ⟨before, rest, hsplit, -⟩ := List.lookup_eq_some_iff.1 hpending
  have hbefore := sum_dropKey_le (fun e => (h.factory e.2).supplies + 1) key before
  have hrest := sum_dropKey_le (fun e => (h.factory e.2).supplies + 1) key rest
  have hapart : Registry.dropKey key (before ++ (key, m) :: rest) =
      Registry.dropKey key before ++ Registry.dropKey key rest := by
    simp [Registry.dropKey]
  have hdrop : h.unmadeIn ((h.store.registry n).take key) + ((h.factory m).supplies + 1) ≤
      h.unmadeIn (h.store.registry n) := by
    simp only [unmadeIn_eq, Registry.take, hsplit, hapart, List.map_append, List.map_cons,
      List.sum_append, List.sum_cons]
    omega
  omega

/-! ## Enough depth -/

/-- How many factories a job adds at most to those that have not run. -/
def Job.extra : Job → Nat
  | .get _ _ => 0
  | .follow (k := k) _ _ => k

theorem Goes.unmade_le (g : Goes h job deeds h' r) (hk : h.Numbered) :
    h'.unmade ≤ h.unmade + job.extra := by
  induction g with
  | found | missed => exact Nat.le_refl _
  | hand | fail => exact Nat.le_add_right _ _
  | give =>
    rw [unmade_build]
    exact Nat.le_add_right _ _
  | @gave h h' n m key deeds v _ pending _ ih =>
    have hrun := ih (hk.take n key m)
    have hkept := unmade_kept_le h' n key v
    have hbegun := unmade_begun_lt pending
    simp only [Job.extra] at hrun ⊢
    omega
  | @failed h h' n m key deeds fault _ pending _ ih =>
    have hrun := ih (hk.take n key m)
    have hbegun := unmade_begun_lt pending
    simp only [Job.extra] at hrun ⊢
    omega
  | resolve asked _ ih ih' =>
    have hasked := ih hk
    have hrest := ih' (asked.numbered hk)
    simp only [Job.extra] at hasked hrest ⊢
    omega
  | test _ ih => exact ih hk
  | @unregister h h' home k key next deeds outcome _ ih =>
    have hrest := ih (hk.unregister home key)
    have hle := unmade_unregister_le h home key
    simp only [Job.extra] at hrest ⊢
    omega
  | @register h h' h'' home k key service next v deeds outcome built _ ih =>
    have hrest := ih ((hk.of_built built).register home key v)
    have hregister := unmade_register_le h' home key v
    have hbuild := h.unmade_build service
    simp only [built] at hbuild
    simp only [Job.extra] at hrest ⊢
    omega
  | @unbuilt h h' home k key service next fault unbuilt =>
    have hbuild := h.unmade_build service
    rw [unbuilt] at hbuild
    exact hbuild.le.trans (Nat.le_add_right _ _)
  | @supply h h' home m l k bound key name later next deeds outcome _ ih =>
    have hrest := ih (hk.registerFactory home key _)
    have hsupply : (h.registerFactory home key ⟨name, home, m, later⟩).unmade ≤
        h.unmade + (m + 1) := unmade_registerFactory_le hk home key _
    simp only [Job.extra] at hrest ⊢
    omega

/-- Following a recipe is a job that is done, if what it asks for is. -/
theorem exists_goes_follow {bound : Nat} (hagain : ∀ h n key, h.Numbered → h.unmade < bound →
      ∃ deeds, Goes h (.get n key) deeds (again h n key).1 (again h n key).2)
    (home : Nat) {k : Nat} (recipe : Recipe k) (h : Hub) (hk : h.Numbered)
    (hb : h.unmade + k < bound) :
    ∃ deeds, Goes h (.follow home recipe) deeds (follow again home recipe h).1
      (follow again home recipe h).2 := by
  induction recipe generalizing h with
  | give => exact ⟨_, .give⟩
  | hand => exact ⟨_, .hand⟩
  | fail => exact ⟨_, .fail⟩
  | resolve key next ih =>
    obtain ⟨deeds, asked⟩ := hagain h home key hk (by omega)
    have hle : (again h home key).1.unmade ≤ h.unmade := asked.unmade_le hk
    obtain ⟨deeds', rest⟩ := ih (again h home key).2 _ (asked.numbered hk) (by omega)
    exact ⟨_, .resolve asked rest⟩
  | test key next ih =>
    obtain ⟨deeds, rest⟩ := ih ((h.store.registry home).contains key) h hk hb
    exact ⟨_, .test rest⟩
  | unregister key next ih =>
    have hle := unmade_unregister_le h home key
    obtain ⟨deeds, rest⟩ := ih _ (hk.unregister home key) (by omega)
    exact ⟨_, .unregister rest⟩
  | register key service next ih =>
    rw [follow]
    have hbuild := h.unmade_build service
    rcases hr : h.build service with ⟨h₁, fault | v⟩ <;> simp only [hr] at hbuild
    · exact ⟨_, .unbuilt hr⟩
    · have hle := unmade_register_le h₁ home key v
      obtain ⟨deeds, rest⟩ := ih _ ((hk.of_built hr).register home key v) (by omega)
      exact ⟨_, .register hr rest⟩
  | @supply m l k hbound key name later next _ ih =>
    have hle : (h.registerFactory home key ⟨name, home, m, later⟩).unmade ≤
        h.unmade + (m + 1) := unmade_registerFactory_le hk home key _
    obtain ⟨deeds, rest⟩ := ih (h.registerFactory home key ⟨name, home, m, later⟩)
      (hk.registerFactory home key _) (by omega)
    exact ⟨_, .supply rest⟩

/-- A lookup is a job that is done, if the lookups nested in it are. -/
theorem exists_goes_with (hk : h.Numbered) (hagain : ∀ h' n key, h'.Numbered →
      h'.unmade < h.unmade →
      ∃ deeds, Goes h' (.get n key) deeds (again h' n key).1 (again h' n key).2)
    (n : Nat) (key : Text) :
    ∃ deeds, Goes h (.get n key) deeds (resolveWith again h n key).1
      (resolveWith again h n key).2 := by
  cases hready : (h.store.registry n).ready.lookup key with
  | some v =>
    rw [resolveWith, hready]
    exact ⟨_, .found hready⟩
  | none =>
    cases hpending : (h.store.registry n).factories.lookup key with
    | none =>
      rw [resolveWith, hready, hpending]
      exact ⟨_, .missed hready hpending⟩
    | some m =>
      obtain ⟨deeds, run⟩ := exists_goes_follow hagain (h.factory m).home (h.factory m).recipe
        (h.begun n key m) (hk.take n key m) (unmade_begun_lt hpending)
      rw [resolveWith_of_pending hready hpending]
      rcases hfollow : follow again (h.factory m).home (h.factory m).recipe (h.begun n key m) with
        ⟨h₁, fault | v⟩
      · rw [hfollow] at run
        exact ⟨_, .failed hready hpending run⟩
      · rw [hfollow] at run
        exact ⟨_, .gave hready hpending run⟩

theorem exists_goes_to (depth : Nat) (hk : h.Numbered) (hd : h.unmade ≤ depth) (n : Nat)
    (key : Text) :
    ∃ deeds, Goes h (.get n key) deeds (resolveTo depth h n key).1 (resolveTo depth h n key).2 := by
  induction depth generalizing h n key with
  | zero => exact exists_goes_with hk (fun h' n key _ hlt => absurd hlt (by omega)) n key
  | succ depth ih => exact exists_goes_with hk (fun h' n key hk' hlt => ih hk' (by omega) n key) n key

/-- Every lookup comes to an end. -/
theorem exists_goes (hk : h.Numbered) (n : Nat) (key : Text) :
    ∃ deeds, Goes h (.get n key) deeds (h.resolve n key).1 (h.resolve n key).2 :=
  exists_goes_to h.unmade hk (Nat.le_refl _) n key

/-- A job is done in one way only. -/
theorem Goes.unique (g : Goes h job deeds h₁ r) (g' : Goes h job deeds' h₂ r') :
    deeds = deeds' ∧ h₁ = h₂ ∧ r = r' := by
  induction g generalizing deeds' h₂ r' with
  | found ready =>
    cases g' with
    | found ready' =>
      obtain rfl := Option.some.inj (ready.symm.trans ready')
      exact ⟨rfl, rfl, rfl⟩
    | missed ready' => cases ready.symm.trans ready'
    | gave ready' => cases ready.symm.trans ready'
    | failed ready' => cases ready.symm.trans ready'
  | missed ready pending =>
    cases g' with
    | found ready' => cases ready.symm.trans ready'
    | missed => exact ⟨rfl, rfl, rfl⟩
    | gave _ pending' => cases pending.symm.trans pending'
    | failed _ pending' => cases pending.symm.trans pending'
  | gave ready pending run ih =>
    cases g' with
    | found ready' => cases ready.symm.trans ready'
    | missed _ pending' => cases pending.symm.trans pending'
    | gave _ pending' run' =>
      obtain rfl := Option.some.inj (pending.symm.trans pending')
      obtain ⟨rfl, rfl, hv⟩ := ih run'
      obtain rfl := Except.ok.inj hv
      exact ⟨rfl, rfl, rfl⟩
    | failed _ pending' run' =>
      obtain rfl := Option.some.inj (pending.symm.trans pending')
      cases (ih run').2.2
  | failed ready pending run ih =>
    cases g' with
    | found ready' => cases ready.symm.trans ready'
    | missed _ pending' => cases pending.symm.trans pending'
    | gave _ pending' run' =>
      obtain rfl := Option.some.inj (pending.symm.trans pending')
      cases (ih run').2.2
    | failed _ pending' run' =>
      obtain rfl := Option.some.inj (pending.symm.trans pending')
      obtain ⟨rfl, rfl, hfault⟩ := ih run'
      obtain rfl := Except.error.inj hfault
      exact ⟨rfl, rfl, rfl⟩
  | give =>
    cases g'
    exact ⟨rfl, rfl, rfl⟩
  | hand =>
    cases g'
    exact ⟨rfl, rfl, rfl⟩
  | fail =>
    cases g'
    exact ⟨rfl, rfl, rfl⟩
  | resolve _ _ ih ih' =>
    cases g' with
    | resolve asked' rest' =>
      obtain ⟨rfl, rfl, rfl⟩ := ih asked'
      obtain ⟨rfl, rfl, rfl⟩ := ih' rest'
      exact ⟨rfl, rfl, rfl⟩
  | test _ ih =>
    cases g' with
    | test rest' => exact ih rest'
  | unregister _ ih =>
    cases g' with
    | unregister rest' =>
      obtain ⟨rfl, rfl, rfl⟩ := ih rest'
      exact ⟨rfl, rfl, rfl⟩
  | register built _ ih =>
    cases g' with
    | register built' rest' =>
      obtain ⟨rfl, hv⟩ := Prod.mk.inj (built.symm.trans built')
      obtain rfl := Except.ok.inj hv
      obtain ⟨rfl, rfl, rfl⟩ := ih rest'
      exact ⟨rfl, rfl, rfl⟩
    | unbuilt unbuilt' => cases built.symm.trans unbuilt'
  | unbuilt unbuilt =>
    cases g' with
    | register built' => cases unbuilt.symm.trans built'
    | unbuilt unbuilt' =>
      obtain ⟨rfl, hfault⟩ := Prod.mk.inj (unbuilt.symm.trans unbuilt')
      obtain rfl := Except.error.inj hfault
      exact ⟨rfl, rfl, rfl⟩
  | supply _ ih =>
    cases g' with
    | supply rest' =>
      obtain ⟨rfl, rfl, rfl⟩ := ih rest'
      exact ⟨rfl, rfl, rfl⟩

/-- A lookup that can come to an outcome comes to it. -/
theorem Goes.resolve_eq (g : Goes h (.get n key) deeds h' r) (hk : h.Numbered) :
    h.resolve n key = (h', r) := by
  obtain ⟨deeds', g'⟩ := exists_goes hk n key
  obtain ⟨-, hh, hr⟩ := g'.unique g
  exact Prod.ext hh hr

end Hub

end PathStore
