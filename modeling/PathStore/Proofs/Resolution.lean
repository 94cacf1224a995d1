import Mathlib
import PathStore.Hub.Resolve
import PathStore.Proofs.Ledger
import PathStore.Proofs.Objects

/-!
# Services that ask for services

A factory that only asks (`Recipe.OnlyAsks`) can look up any key of its registry, its own included.
What a lookup comes to is described without a depth (`Hub.Does`), together with the acts that it
adds to the ledger of the registry.  A factory leaves the registry before it runs, so every nested
lookup meets fewer factories, and as many levels as there are factories are enough
(`Hub.exists_does`).  Every act of a lookup fits the ledger (`Hub.Does.recorded`).  Hence whatever
is registered, taken away and looked up, the ledger of a registry that was empty at first is sound
(`Hub.History.tended`), and what a sound ledger says of factories and services holds of the registry
(`Hub.resolve_once`).
-/

namespace PathStore

/-- The recipe, whatever the answers it gets, asks for services and registers nothing. -/
inductive Recipe.OnlyAsks {k : Nat} : Recipe k → Prop
  | give {service : Template} : Recipe.OnlyAsks (.give service)
  | hand {service : Value} : Recipe.OnlyAsks (.hand service)
  | fail {fault : Fault} : Recipe.OnlyAsks (.fail fault)
  | resolve {key : Text} {next : Except Fault Value → Recipe k}
      (next_of : ∀ answer, Recipe.OnlyAsks (next answer)) : Recipe.OnlyAsks (.resolve key next)

namespace Hub

/-- The hub with a factory taken out of its registry and its run recorded. -/
def begun (h : Hub) (n : Nat) (key : Text) (m : Nat) : Hub :=
  (h.modifyRegistry n fun r => r.take key).noteMade (h.factory m).name

/-- The hub with a service kept that a factory gave. -/
def kept (h : Hub) (n : Nat) (key : Text) (service : Value) : Hub :=
  h.modifyRegistry n fun r => r.keep key service

/-- What is done in a registry. -/
inductive Task where
  | get (key : Text)
  | follow {k : Nat} (recipe : Recipe k)

/-- Doing a task in registry `n` of the first hub consists in the acts, and leads to the second hub
and to the outcome. -/
inductive Does (n : Nat) : Hub → Task → List Act → Hub → Except Fault Value → Prop
  | found {h : Hub} {key : Text} {v : Value}
      (ready : (h.store.registry n).ready.lookup key = some v) :
      Does n h (.get key) [.found key v] h (.ok v)
  | missed {h : Hub} {key : Text}
      (ready : (h.store.registry n).ready.lookup key = none)
      (pending : (h.store.registry n).factories.lookup key = none) :
      Does n h (.get key) [.missed key] h (.error (.unknownService key))
  | gave {h h' : Hub} {key : Text} {m : Nat} {acts : List Act} {v : Value}
      (ready : (h.store.registry n).ready.lookup key = none)
      (pending : (h.store.registry n).factories.lookup key = some m)
      (run : Does n (h.begun n key m) (.follow (h.factory m).recipe) acts h' (.ok v)) :
      Does n h (.get key) (.began key m :: (acts ++ [.gave key m v])) (h'.kept n key v) (.ok v)
  | failed {h h' : Hub} {key : Text} {m : Nat} {acts : List Act} {fault : Fault}
      (ready : (h.store.registry n).ready.lookup key = none)
      (pending : (h.store.registry n).factories.lookup key = some m)
      (run : Does n (h.begun n key m) (.follow (h.factory m).recipe) acts h' (.error fault)) :
      Does n h (.get key) (.began key m :: (acts ++ [.failed key m fault])) h' (.error fault)
  | give {h : Hub} {k : Nat} {service : Template} :
      Does n h (.follow (.give (k := k) service)) [] (h.build service).1 (h.build service).2
  | hand {h : Hub} {k : Nat} {v : Value} : Does n h (.follow (.hand (k := k) v)) [] h (.ok v)
  | fail {h : Hub} {k : Nat} {fault : Fault} :
      Does n h (.follow (.fail (k := k) fault)) [] h (.error fault)
  | resolve {h h' h'' : Hub} {k : Nat} {key : Text} {next : Except Fault Value → Recipe k}
      {acts acts' : List Act} {answer outcome : Except Fault Value}
      (asked : Does n h (.get key) acts h' answer)
      (rest : Does n h' (.follow (next answer)) acts' h'' outcome) :
      Does n h (.follow (.resolve key next)) (acts ++ acts') h'' outcome

/-- While a task is done in registry `n` of the first hub, there is a time when the acts have
happened and the hub is the second one. -/
inductive Amid (n : Nat) : Hub → Task → List Act → Hub → Prop
  | start {h : Hub} {task : Task} : Amid n h task [] h
  | run {h h' : Hub} {key : Text} {m : Nat} {acts : List Act}
      (ready : (h.store.registry n).ready.lookup key = none)
      (pending : (h.store.registry n).factories.lookup key = some m)
      (amid : Amid n (h.begun n key m) (.follow (h.factory m).recipe) acts h') :
      Amid n h (.get key) (.began key m :: acts) h'
  | asking {h h' : Hub} {k : Nat} {key : Text} {next : Except Fault Value → Recipe k}
      {acts : List Act}
      (amid : Amid n h (.get key) acts h') : Amid n h (.follow (.resolve key next)) acts h'
  | asked {h h' h'' : Hub} {k : Nat} {key : Text} {next : Except Fault Value → Recipe k}
      {acts acts' : List Act} {answer : Except Fault Value}
      (asked : Does n h (.get key) acts h' answer)
      (amid : Amid n h' (.follow (next answer)) acts' h'') :
      Amid n h (.follow (.resolve key next)) (acts ++ acts') h''

variable {n m : Nat} {h h' h₁ h₂ : Hub} {key : Text} {task : Task} {acts acts' tr tr' : List Act}
  {act : Act} {r r' : Except Fault Value} {again : Resolver}

/-! ## Frames -/

theorem registry_modifyRegistry {f : Registry → Registry} (hn : n < h.store.registries.size) :
    (h.modifyRegistry n f).store.registry n = f (h.store.registry n) := by
  simp [modifyRegistry, Store.modifyRegistry, Store.registry, hn, Array.getElem_modify]

@[simp] theorem size_modifyRegistry (h : Hub) (n : Nat) (f : Registry → Registry) :
    (h.modifyRegistry n f).store.registries.size = h.store.registries.size :=
  Array.size_modify

theorem registry_begun (hn : n < h.store.registries.size) (key : Text) (m : Nat) :
    (h.begun n key m).store.registry n = (h.store.registry n).take key :=
  registry_modifyRegistry hn

theorem size_begun (h : Hub) (n : Nat) (key : Text) (m : Nat) :
    (h.begun n key m).store.registries.size = h.store.registries.size :=
  h.size_modifyRegistry n _

theorem registry_kept (hn : n < h.store.registries.size) (key : Text) (v : Value) :
    (h.kept n key v).store.registry n = (h.store.registry n).keep key v :=
  registry_modifyRegistry hn

theorem size_kept (h : Hub) (n : Nat) (key : Text) (v : Value) :
    (h.kept n key v).store.registries.size = h.store.registries.size :=
  h.size_modifyRegistry n _

theorem registry_registerFactory (hn : n < h.store.registries.size) (key : Text) (f : Factory) :
    (h.registerFactory n key f).store.registry n =
      (h.store.registry n).registerFactory key h.factories.size :=
  registry_modifyRegistry hn

theorem size_registerFactory (h : Hub) (n : Nat) (key : Text) (f : Factory) :
    (h.registerFactory n key f).store.registries.size = h.store.registries.size :=
  size_modifyRegistry _ n _

theorem factory_registerFactory_self (h : Hub) (n : Nat) (key : Text) (f : Factory) :
    (h.registerFactory n key f).factory h.factories.size = f := by
  simp [factory, registerFactory, newFactory, modifyRegistry]

theorem factory_registerFactory_of_lt (hm : m < h.factories.size) (n : Nat) (key : Text)
    (f : Factory) : (h.registerFactory n key f).factory m = h.factory m := by
  simp [factory, registerFactory, newFactory, modifyRegistry, Array.getElem?_push, hm.ne]

theorem registries_build (h : Hub) (t : Template) :
    (h.build t).1.store.registries = h.store.registries :=
  (Store.build_sameObjects h.names h.store t).registries

theorem registry_build (h : Hub) (t : Template) (n : Nat) :
    (h.build t).1.store.registry n = h.store.registry n := by
  rw [Store.registry, registries_build, Store.registry]

/-- Doing a task adds no registry. -/
theorem Does.size_eq (d : Does n h task tr h' r) :
    h'.store.registries.size = h.store.registries.size := by
  induction d with
  | found | missed | hand | fail => rfl
  | give => rw [registries_build]
  | gave _ _ _ ih => rw [size_kept, ih, size_begun]
  | failed _ _ _ ih => rw [ih, size_begun]
  | resolve _ _ ih ih' => rw [ih', ih]

/-- Doing a task registers nothing and takes nothing away that was registered. -/
theorem Does.not_registers (d : Does n h task tr h' r) :
    ∀ act ∈ tr, ∀ key, ¬ act.Registers key := by
  induction d with
  | found | missed => exact List.forall_mem_singleton.2 fun _ => not_false
  | give | hand | fail => exact nofun
  | gave _ _ _ ih | failed _ _ _ ih =>
    refine List.forall_mem_cons.2 ⟨fun _ => not_false, List.forall_mem_append.2 ⟨ih, ?_⟩⟩
    exact List.forall_mem_singleton.2 fun _ => not_false
  | resolve _ _ ih ih' => exact List.forall_mem_append.2 ⟨ih, ih'⟩

/-- Doing a task adds no factory. -/
theorem Does.factories_eq (d : Does n h task tr h' r) : h'.factories = h.factories := by
  induction d with
  | found | missed | hand | fail | give => rfl
  | gave _ _ _ ih | failed _ _ _ ih => exact ih
  | resolve _ _ ih ih' => exact ih'.trans ih

theorem Does.factory_eq (d : Does n h task tr h' r) (m : Nat) : h'.factory m = h.factory m := by
  rw [factory, d.factories_eq, factory]

/-- The second registry has no other factories than the first. -/
structure Fewer (reg reg' : Registry) : Prop where
  lookup : ∀ key m, reg'.factories.lookup key = some m → reg.factories.lookup key = some m
  length : reg'.factories.length ≤ reg.factories.length

theorem Fewer.trans {reg reg' reg'' : Registry} (hf : Fewer reg reg') (hf' : Fewer reg' reg'') :
    Fewer reg reg'' :=
  ⟨fun key m hm => hf.lookup key m (hf'.lookup key m hm), hf'.length.trans hf.length⟩

theorem take_fewer (reg : Registry) (key : Text) : Fewer reg (reg.take key) := by
  refine ⟨fun key' m hm => ?_, List.length_filter_le _ _⟩
  rw [Registry.factories_take] at hm
  by_cases hk : key = key'
  · rw [if_pos hk] at hm
    cases hm
  · rwa [if_neg hk] at hm

/-- A lookup leaves no other factories in its registry than were there. -/
theorem Does.fewer (d : Does n h task tr h' r) (hn : n < h.store.registries.size) :
    Fewer (h.store.registry n) (h'.store.registry n) := by
  induction d with
  | found | missed | hand | fail => exact ⟨fun _ _ hm => hm, Nat.le_refl _⟩
  | give =>
    rw [registry_build]
    exact ⟨fun _ _ hm => hm, Nat.le_refl _⟩
  | @gave h h' key m acts v ready pending run ih =>
    have hfewer := ih (by rwa [size_begun])
    rw [registry_begun hn] at hfewer
    rw [registry_kept (by rwa [run.size_eq, size_begun])]
    exact (take_fewer _ key).trans ⟨hfewer.lookup, hfewer.length⟩
  | @failed h h' key m acts fault ready pending run ih =>
    have hfewer := ih (by rwa [size_begun])
    rw [registry_begun hn] at hfewer
    exact (take_fewer _ key).trans hfewer
  | resolve asked _ ih ih' => exact (ih hn).trans (ih' (by rwa [asked.size_eq]))

/-! ## Enough depth -/

/-- The registry exists, and its factories look up services in it and register nothing. -/
structure Obeying (n : Nat) (h : Hub) : Prop where
  here : n < h.store.registries.size
  factory : ∀ key m, (h.store.registry n).factories.lookup key = some m →
    (h.factory m).home = n ∧ (h.factory m).recipe.OnlyAsks

theorem Obeying.of_fewer (ho : Obeying n h) (hsize : h'.store.registries.size =
    h.store.registries.size) (hfactories : ∀ m, h'.factory m = h.factory m)
    (hfewer : Fewer (h.store.registry n) (h'.store.registry n)) : Obeying n h' := by
  refine ⟨by rw [hsize]; exact ho.here, fun key m hm => ?_⟩
  rw [hfactories]
  exact ho.factory key m (hfewer.lookup key m hm)

theorem Does.obeying (d : Does n h task tr h' r) (ho : Obeying n h) : Obeying n h' :=
  ho.of_fewer d.size_eq d.factory_eq (d.fewer ho.here)

theorem Obeying.begun (ho : Obeying n h) (key : Text) (m : Nat) : Obeying n (h.begun n key m) :=
  ho.of_fewer (h.size_begun n key m) (fun _ => rfl)
    (by rw [registry_begun ho.here]; exact take_fewer _ key)

/-- Following a recipe that only asks is a task that is done, if what it asks for is. -/
theorem exists_does_follow {bound : Nat} (hagain : ∀ h key, Obeying n h →
      (h.store.registry n).factories.length < bound →
      ∃ tr, Does n h (.get key) tr (again h n key).1 (again h n key).2)
    {k : Nat} {recipe : Recipe k} (hr : recipe.OnlyAsks) (h : Hub) (ho : Obeying n h)
    (hb : (h.store.registry n).factories.length < bound) :
    ∃ tr, Does n h (.follow recipe) tr (follow again n recipe h).1 (follow again n recipe h).2 := by
  induction hr generalizing h with
  | give => exact ⟨[], .give⟩
  | hand => exact ⟨[], .hand⟩
  | fail => exact ⟨[], .fail⟩
  | @resolve key next _ ih =>
    obtain ⟨tr, asked⟩ := hagain h key ho hb
    have hfewer := asked.fewer ho.here
    obtain ⟨tr', rest⟩ := ih _ _ (asked.obeying ho) (hfewer.length.trans_lt hb)
    exact ⟨tr ++ tr', .resolve asked rest⟩

theorem resolveWith_of_pending (hready : (h.store.registry n).ready.lookup key = none)
    (hpending : (h.store.registry n).factories.lookup key = some m) :
    resolveWith again h n key =
      match follow again (h.factory m).home (h.factory m).recipe (h.begun n key m) with
      | (h', .ok service) => (h'.kept n key service, .ok service)
      | (h', .error fault) => (h', .error fault) := by
  rw [resolveWith, hready, hpending]
  rfl

/-- A lookup is a task that is done, if the lookups nested in it are. -/
theorem exists_does_with (hagain : ∀ h' key, Obeying n h' →
      (h'.store.registry n).factories.length < (h.store.registry n).factories.length →
      ∃ tr, Does n h' (.get key) tr (again h' n key).1 (again h' n key).2)
    (ho : Obeying n h) (key : Text) :
    ∃ tr, Does n h (.get key) tr (resolveWith again h n key).1 (resolveWith again h n key).2 := by
  cases hready : (h.store.registry n).ready.lookup key with
  | some v =>
    rw [resolveWith, hready]
    exact ⟨_, .found hready⟩
  | none =>
    cases hpending : (h.store.registry n).factories.lookup key with
    | none =>
      rw [resolveWith, hready, hpending]
      exact ⟨_, .missed hready hpending⟩
    | some m =>
      obtain ⟨hhome, hasks⟩ := ho.factory key m hpending
      have hlt : ((h.begun n key m).store.registry n).factories.length <
          (h.store.registry n).factories.length := by
        rw [registry_begun ho.here]
        exact Registry.length_dropKey_lt hpending
      obtain ⟨tr, run⟩ := exists_does_follow hagain hasks _ (ho.begun key m) hlt
      rw [resolveWith_of_pending hready hpending, hhome]
      rcases hfollow : follow again n (h.factory m).recipe (h.begun n key m) with ⟨h₁, fault | v⟩
      · rw [hfollow] at run
        exact ⟨_, .failed hready hpending run⟩
      · rw [hfollow] at run
        exact ⟨_, .gave hready hpending run⟩

/-- As many levels as the registry has factories are enough for every lookup. -/
theorem exists_does_to (depth : Nat) (ho : Obeying n h)
    (hd : (h.store.registry n).factories.length ≤ depth) (key : Text) :
    ∃ tr, Does n h (.get key) tr (resolveTo depth h n key).1 (resolveTo depth h n key).2 := by
  induction depth generalizing h key with
  | zero => exact exists_does_with (fun h' key ho' hlt => absurd hlt (by omega)) ho key
  | succ depth ih => exact exists_does_with (fun h' key ho' hlt => ih ho' (by omega) key) ho key

theorem unmadeIn_eq (h : Hub) (r : Registry) :
    h.unmadeIn r = (r.factories.map fun e => (h.factory e.2).supplies + 1).sum := by
  rw [unmadeIn, List.sum_eq_foldl, List.foldl_map]

theorem unmade_eq (h : Hub) :
    h.unmade = (h.store.registries.toList.map h.unmadeIn).sum := by
  rw [unmade, List.sum_eq_foldl, List.foldl_map]

theorem length_factories_le_unmadeIn (h : Hub) (r : Registry) :
    r.factories.length ≤ h.unmadeIn r := by
  rw [unmadeIn_eq]
  induction r.factories with
  | nil => exact Nat.le_refl _
  | cons e factories ih =>
    rw [List.map_cons, List.sum_cons, List.length_cons]
    omega

theorem length_factories_le_unmade (hn : n < h.store.registries.size) :
    (h.store.registry n).factories.length ≤ h.unmade := by
  have hmem : h.store.registry n ∈ h.store.registries.toList := by
    rw [Store.registry, Array.getElem?_eq_getElem hn]
    exact Array.getElem_mem_toList hn
  obtain ⟨before, rest, hsplit⟩ := List.append_of_mem hmem
  have hle := h.length_factories_le_unmadeIn (h.store.registry n)
  rw [unmade_eq, hsplit, List.map_append, List.map_cons, List.sum_append, List.sum_cons]
  omega

/-- Every lookup comes to an end. -/
theorem exists_does (ho : Obeying n h) (key : Text) :
    ∃ tr, Does n h (.get key) tr (h.resolve n key).1 (h.resolve n key).2 :=
  exists_does_to h.unmade ho (length_factories_le_unmade ho.here) key

/-- A task is done in one way only. -/
theorem Does.unique (d : Does n h task tr h₁ r) (d' : Does n h task tr' h₂ r') :
    tr = tr' ∧ h₁ = h₂ ∧ r = r' := by
  induction d generalizing tr' h₂ r' with
  | found ready =>
    cases d' with
    | found ready' =>
      obtain rfl := Option.some.inj (ready.symm.trans ready')
      exact ⟨rfl, rfl, rfl⟩
    | missed ready' => cases ready.symm.trans ready'
    | gave ready' => cases ready.symm.trans ready'
    | failed ready' => cases ready.symm.trans ready'
  | missed ready pending =>
    cases d' with
    | found ready' => cases ready.symm.trans ready'
    | missed => exact ⟨rfl, rfl, rfl⟩
    | gave _ pending' => cases pending.symm.trans pending'
    | failed _ pending' => cases pending.symm.trans pending'
  | gave ready pending run ih =>
    cases d' with
    | found ready' => cases ready.symm.trans ready'
    | missed _ pending' => cases pending.symm.trans pending'
    | gave _ pending' run' =>
      obtain rfl := Option.some.inj (pending.symm.trans pending')
      obtain ⟨rfl, rfl, hv⟩ := ih run'
      obtain rfl := Except.ok.inj hv
      exact ⟨rfl, rfl, rfl⟩
    | failed _ pending' run' =>
      obtain rfl := Option.some.inj (pending.symm.trans pending')
      cases (ih run').2.2
  | failed ready pending run ih =>
    cases d' with
    | found ready' => cases ready.symm.trans ready'
    | missed _ pending' => cases pending.symm.trans pending'
    | gave _ pending' run' =>
      obtain rfl := Option.some.inj (pending.symm.trans pending')
      cases (ih run').2.2
    | failed _ pending' run' =>
      obtain rfl := Option.some.inj (pending.symm.trans pending')
      obtain ⟨rfl, rfl, hfault⟩ := ih run'
      obtain rfl := Except.error.inj hfault
      exact ⟨rfl, rfl, rfl⟩
  | give =>
    cases d'
    exact ⟨rfl, rfl, rfl⟩
  | hand =>
    cases d'
    exact ⟨rfl, rfl, rfl⟩
  | fail =>
    cases d'
    exact ⟨rfl, rfl, rfl⟩
  | resolve _ _ ih ih' =>
    cases d' with
    | resolve asked' rest' =>
      obtain ⟨rfl, rfl, rfl⟩ := ih asked'
      obtain ⟨rfl, rfl, rfl⟩ := ih' rest'
      exact ⟨rfl, rfl, rfl⟩

/-! ## Ledgers of registries -/

/-- The ledger is sound and tells what the registry holds. -/
structure Recorded (n : Nat) (acts : List Act) (h : Hub) : Prop where
  here : n < h.store.registries.size
  sound : Sound acts
  registry : h.store.registry n = Registry.ofLedger acts

/-- A fitting act is recorded. -/
theorem Recorded.concat (hrec : Recorded n acts h) (hfits : act.Fits acts)
    (hsize : h'.store.registries.size = h.store.registries.size)
    (hregistry : h'.store.registry n = (h.store.registry n).after act) :
    Recorded n (acts ++ [act]) h' := by
  refine ⟨by rw [hsize]; exact hrec.here, Sound.concat_iff.2 ⟨hrec.sound, hfits⟩, ?_⟩
  rw [hregistry, hrec.registry, Registry.ofLedger_concat]

/-- A factory that is found waits to be run. -/
theorem Recorded.status_of_pending (hrec : Recorded n acts h)
    (hpending : (h.store.registry n).factories.lookup key = some m) :
    Status.of key acts = .pending m := by
  rw [hrec.registry] at hpending
  exact ((hrec.sound.shows key).pending m).1 hpending

theorem Recorded.began (hrec : Recorded n acts h)
    (hpending : (h.store.registry n).factories.lookup key = some m) :
    Recorded n (acts ++ [.began key m]) (h.begun n key m) :=
  hrec.concat (hrec.status_of_pending hpending) (h.size_begun n key m)
    (registry_begun hrec.here key m)

/-- The same factories run, under the same keys. -/
def SameRuns (acts acts' : List Act) : Prop :=
  ∀ key m, Status.of key acts' = .running m ↔ Status.of key acts = .running m

theorem SameRuns.refl (acts : List Act) : SameRuns acts acts :=
  fun _ _ => Iff.rfl

theorem SameRuns.trans {acts'' : List Act} (hs : SameRuns acts acts')
    (hs' : SameRuns acts' acts'') : SameRuns acts acts'' :=
  fun key m => (hs' key m).trans (hs key m)

theorem SameRuns.running (hs : SameRuns (acts ++ [.began key m]) acts') :
    Status.of key acts' = .running m :=
  (hs key m).2 (by rw [Status.of_concat, Status.after, if_pos rfl])

/-- When the run of a factory has ended, the same factories run as before it began. -/
theorem sameRuns_of_run {k : Text} (hpending : Status.of k acts = .pending m)
    (hruns : SameRuns (acts ++ [.began k m]) acts')
    (hends : ∀ s m', Status.after k s act ≠ .running m')
    (hother : ∀ key s, k ≠ key → Status.after key s act = s) : SameRuns acts (acts' ++ [act]) := by
  intro key m'
  rw [Status.of_concat]
  by_cases hk : k = key
  · subst hk
    exact iff_of_false (hends _ m') (by rw [hpending]; nofun)
  · rw [hother key _ hk, hruns key m', Status.of_concat, Status.after, if_neg hk]

/-- The acts of a task fit the ledger of its registry, and when it is done, the same factories run
as before. -/
theorem Does.recorded (d : Does n h task tr h' r) (hrec : Recorded n acts h) :
    Recorded n (acts ++ tr) h' ∧ SameRuns acts (acts ++ tr) := by
  induction d generalizing acts with
  | found ready =>
    rw [hrec.registry, (hrec.sound.shows _).ready] at ready
    refine ⟨hrec.concat ready rfl rfl, fun key m => ?_⟩
    rw [Status.of_concat, Status.after]
  | @missed h k ready pending =>
    have hc := Registry.contains_eq_false_iff.2 ⟨ready, pending⟩
    rw [hrec.registry, hrec.sound.not_contains_iff] at hc
    refine ⟨hrec.concat hc rfl rfl, fun key m => ?_⟩
    rw [Status.of_concat, Status.after]
  | @gave h h' k m tr v ready pending run ih =>
    have hpending := hrec.status_of_pending pending
    obtain ⟨hran, hruns⟩ := ih (hrec.began pending)
    rw [List.append_cons, ← List.append_assoc]
    refine ⟨hran.concat hruns.running (h'.size_kept n k v) (registry_kept hran.here k v), ?_⟩
    refine sameRuns_of_run hpending hruns (fun s m' => ?_) fun key s hk => if_neg hk
    rw [Status.after, if_pos rfl]
    rintro ⟨⟩
  | @failed h h' k m tr fault ready pending run ih =>
    have hpending := hrec.status_of_pending pending
    obtain ⟨hran, hruns⟩ := ih (hrec.began pending)
    rw [List.append_cons, ← List.append_assoc]
    refine ⟨hran.concat hruns.running rfl rfl, ?_⟩
    refine sameRuns_of_run hpending hruns (fun s m' => ?_) fun key s hk => if_neg hk
    rw [Status.after, if_pos rfl]
    rintro ⟨⟩
  | give =>
    rw [List.append_nil]
    exact ⟨⟨by rw [registries_build]; exact hrec.here, hrec.sound,
      by rw [registry_build]; exact hrec.registry⟩, .refl acts⟩
  | hand | fail =>
    rw [List.append_nil]
    exact ⟨hrec, .refl acts⟩
  | resolve _ _ ih ih' =>
    obtain ⟨hrec₁, hruns₁⟩ := ih hrec
    obtain ⟨hrec₂, hruns₂⟩ := ih' hrec₁
    rw [← List.append_assoc]
    exact ⟨hrec₂, hruns₁.trans hruns₂⟩

/-- What a factory meets while a lookup is under way is recorded. -/
theorem Amid.recorded (a : Amid n h task tr h') (hrec : Recorded n acts h) :
    Recorded n (acts ++ tr) h' := by
  induction a generalizing acts with
  | start => rwa [List.append_nil]
  | run ready pending _ ih =>
    rw [List.append_cons]
    exact ih (hrec.began pending)
  | asking _ ih => exact ih hrec
  | asked asked _ ih =>
    rw [← List.append_assoc]
    exact ih (asked.recorded hrec).1

/-! ## What a lookup comes to -/

/-- The names of the factories that the acts begin to run. -/
def ran (h : Hub) (acts : List Act) : List Text :=
  (acts.filterMap Act.begun?).map fun m => (h.factory m).name

theorem ran_append (h : Hub) (acts acts' : List Act) :
    h.ran (acts ++ acts') = h.ran acts ++ h.ran acts' := by
  rw [ran, List.filterMap_append, List.map_append, ran, ran]

theorem ran_began (h : Hub) (key : Text) (m : Nat) (acts : List Act) :
    h.ran (.began key m :: acts) = (h.factory m).name :: h.ran acts :=
  rfl

/-- The factories that are run are recorded by their names. -/
theorem Does.made_eq (d : Does n h task tr h' r) : h'.made = h.made ++ h.ran tr := by
  induction d with
  | found | missed | give | hand | fail => exact (List.append_nil _).symm
  | @gave h h' k m tr v ready pending run ih =>
    have hmade : (h.begun n k m).made = h.made ++ [(h.factory m).name] := rfl
    have hran : (h.begun n k m).ran tr = h.ran tr := rfl
    have hend : h.ran [.gave k m v] = [] := rfl
    rw [ran_began, ran_append, hend, List.append_nil, List.append_cons, ← hmade, ← hran]
    exact ih
  | @failed h h' k m tr fault ready pending run ih =>
    have hmade : (h.begun n k m).made = h.made ++ [(h.factory m).name] := rfl
    have hran : (h.begun n k m).ran tr = h.ran tr := rfl
    have hend : h.ran [.failed k m fault] = [] := rfl
    rw [ran_began, ran_append, hend, List.append_nil, List.append_cons, ← hmade, ← hran]
    exact ih
  | @resolve h h' _ _ _ _ _ tr' _ _ asked _ ih ih' =>
    have hran : h'.ran tr' = h.ran tr' := by simp only [ran, asked.factory_eq]
    rw [ih', ih, ran_append, List.append_assoc, hran]

/-- A lookup gives a service if its last act does. -/
theorem Does.ok_iff (d : Does n h (.get key) tr h' r) (v : Value) :
    r = .ok v ↔ ∃ act, tr.getLast? = some act ∧ act.Gives key v := by
  cases d with
  | found ready => simp [Act.Gives]
  | missed ready pending => simp [Act.Gives]
  | gave ready pending run =>
    rw [← List.cons_append, List.getLast?_concat]
    simp [Act.Gives]
  | failed ready pending run =>
    rw [← List.cons_append, List.getLast?_concat]
    simp [Act.Gives]

theorem does_of_not_contains (hc : (h.store.registry n).contains key = false) :
    Does n h (.get key) [.missed key] h (.error (.unknownService key)) := by
  obtain ⟨ready, pending⟩ := Registry.contains_eq_false_iff.1 hc
  exact .missed ready pending

theorem Does.missed_iff (d : Does n h (.get key) tr h' r) :
    tr = [.missed key] ↔ (h.store.registry n).contains key = false := by
  cases d with
  | found ready => simp [Registry.contains, ready]
  | missed ready pending => simp [Registry.contains, ready, pending]
  | gave ready pending run => simp [Registry.contains, pending]
  | failed ready pending run => simp [Registry.contains, pending]

/-! ## Histories -/

/-- The second hub comes from the first by something that leaves a registry and the factories that
there are alone. -/
structure Aside (n : Nat) (h h' : Hub) : Prop where
  size : h.store.registries.size ≤ h'.store.registries.size
  registry : h'.store.registry n = h.store.registry n
  count : h.factories.size ≤ h'.factories.size
  factory : ∀ m < h.factories.size, h'.factory m = h.factory m

/-- What can happen to registry `n` from the first hub on: the acts, which lead to the second hub.
Factories look up services in this registry and register nothing. -/
inductive History (n : Nat) (h₀ : Hub) : List Act → Hub → Prop
  | start : History n h₀ [] h₀
  | register {acts : List Act} {h : Hub} (key : Text) (v : Value) (history : History n h₀ acts h) :
      History n h₀ (acts ++ [.registered key v]) (h.modifyRegistry n fun r => r.register key v)
  | supply {acts : List Act} {h : Hub} (key : Text) {f : Factory} (home : f.home = n)
      (asks : f.recipe.OnlyAsks) (history : History n h₀ acts h) :
      History n h₀ (acts ++ [.supplied key h.factories.size]) (h.registerFactory n key f)
  | unregister {acts : List Act} {h : Hub} (key : Text) (history : History n h₀ acts h) :
      History n h₀ (acts ++ [.unregistered key]) (h.modifyRegistry n fun r => r.unregister key)
  | get {acts tr : List Act} {h : Hub} {key : Text} (history : History n h₀ acts h)
      (does : Does n h (.get key) tr (h.resolve n key).1 (h.resolve n key).2) :
      History n h₀ (acts ++ tr) (h.resolve n key).1
  | aside {acts : List Act} {h h' : Hub} (history : History n h₀ acts h) (aside : Aside n h h') :
      History n h₀ acts h'

/-- What holds between lookups: the ledger is recorded, no factory runs, and the factories that were
registered are among those of the hub. -/
structure Tended (n : Nat) (acts : List Act) (h : Hub) : Prop where
  recorded : Recorded n acts h
  obeying : Obeying n h
  idle : ∀ key m, Status.of key acts ≠ .running m
  numbered : ∀ key m, .supplied key m ∈ acts → m < h.factories.size

/-- Only the beginning of a run makes a factory run. -/
theorem idle_concat (hidle : ∀ key m, Status.of key acts ≠ .running m)
    (hbegan : ∀ key m, act ≠ .began key m) :
    ∀ key m, Status.of key (acts ++ [act]) ≠ .running m := by
  intro key m hs
  rw [Status.of_concat] at hs
  obtain hact | ⟨hruns, -⟩ := Status.after_eq_running hs
  · exact hbegan key m hact
  · exact hidle key m hruns

/-- Between lookups a fitting act is recorded, if it begins no run and leaves no other factories
than were there. -/
theorem Tended.concat (ht : Tended n acts h) (hfits : act.Fits acts)
    (hsize : h'.store.registries.size = h.store.registries.size)
    (hfactories : h'.factories = h.factories)
    (hregistry : h'.store.registry n = (h.store.registry n).after act)
    (hfewer : Fewer (h.store.registry n) ((h.store.registry n).after act))
    (hbegan : ∀ key m, act ≠ .began key m) (hsupplied : ∀ key m, act ≠ .supplied key m) :
    Tended n (acts ++ [act]) h' := by
  refine ⟨ht.recorded.concat hfits hsize hregistry, ?_, idle_concat ht.idle hbegan,
    fun key m hm => ?_⟩
  · refine ht.obeying.of_fewer hsize (fun m => ?_) (by rwa [hregistry])
    rw [factory, hfactories, factory]
  · rw [List.mem_append, List.mem_singleton] at hm
    rw [hfactories]
    rcases hm with hm | hm
    · exact ht.numbered key m hm
    · exact absurd hm.symm (hsupplied key m)

/-- Doing a task leaves no factory running and registers none. -/
theorem Tended.does (ht : Tended n acts h) (d : Does n h task tr h' r) :
    Tended n (acts ++ tr) h' := by
  obtain ⟨hrec, hruns⟩ := d.recorded ht.recorded
  refine ⟨hrec, d.obeying ht.obeying, fun key m hs => ?_, fun key m hm => ?_⟩
  · exact ht.idle key m ((hruns key m).1 hs)
  · rw [d.factories_eq]
    rcases List.mem_append.1 hm with hm | hm
    · exact ht.numbered key m hm
    · exact absurd rfl (d.not_registers _ hm key)

theorem Tended.lt_of_pending (ht : Tended n acts h)
    (hpending : (h.store.registry n).factories.lookup key = some m) : m < h.factories.size :=
  ht.numbered key m
    (ht.recorded.sound.supplied_of_waiting (Or.inl (ht.recorded.status_of_pending hpending)))

/-- A factory that is registered is a new one. -/
theorem Tended.supply (ht : Tended n acts h) {f : Factory} (hhome : f.home = n)
    (hasks : f.recipe.OnlyAsks) (key : Text) :
    Tended n (acts ++ [.supplied key h.factories.size]) (h.registerFactory n key f) := by
  have hregistry := registry_registerFactory ht.recorded.here key f
  have hsize := h.size_registerFactory n key f
  have hcount : (h.registerFactory n key f).factories.size = h.factories.size + 1 :=
    Array.size_push f
  have hfits : Act.Fits acts (.supplied key h.factories.size) :=
    ⟨ht.idle key, fun k hk => (ht.numbered k _ hk).ne rfl⟩
  have hrec := ht.recorded.concat hfits hsize hregistry
  refine ⟨hrec, ⟨hrec.here, fun k m hm => ?_⟩, idle_concat ht.idle nofun, fun k m hm => ?_⟩
  · rw [hregistry, Registry.factories_registerFactory] at hm
    by_cases hk : key = k
    · rw [if_pos hk] at hm
      obtain rfl := Option.some.inj hm
      rw [factory_registerFactory_self]
      exact ⟨hhome, hasks⟩
    · rw [if_neg hk] at hm
      rw [factory_registerFactory_of_lt (ht.lt_of_pending hm)]
      exact ht.obeying.factory k m hm
  · rw [hcount]
    rw [List.mem_append, List.mem_singleton] at hm
    rcases hm with hm | hm
    · have hlt := ht.numbered k m hm
      omega
    · obtain ⟨-, rfl⟩ := Act.supplied.inj hm
      omega

theorem Tended.aside (ht : Tended n acts h) (ha : Aside n h h') : Tended n acts h' := by
  have hrec := ht.recorded
  refine ⟨⟨hrec.here.trans_le ha.size, hrec.sound, ha.registry.trans hrec.registry⟩,
    ⟨hrec.here.trans_le ha.size, fun key m hm => ?_⟩, ht.idle, fun key m hm => ?_⟩
  · rw [ha.registry] at hm
    rw [ha.factory m (ht.lt_of_pending hm)]
    exact ht.obeying.factory key m hm
  · exact (ht.numbered key m hm).trans_le ha.count

/-- Whatever happens to a registry that was empty at first is recorded. -/
theorem History.tended {h₀ : Hub} (hist : History n h₀ acts h)
    (hn : n < h₀.store.registries.size) (hempty : h₀.store.registry n = .empty) :
    Tended n acts h := by
  induction hist with
  | start =>
    refine ⟨⟨hn, eachAfter_nil, hempty⟩, ⟨hn, fun key m hm => ?_⟩, nofun, nofun⟩
    rw [hempty] at hm
    cases hm
  | register key v _ ih =>
    refine ih.concat (ih.idle key) (size_modifyRegistry _ n _) rfl
      (registry_modifyRegistry ih.recorded.here) ?_ nofun nofun
    exact ⟨(take_fewer _ key).lookup, (take_fewer _ key).length⟩
  | unregister key _ ih =>
    refine ih.concat (ih.idle key) (size_modifyRegistry _ n _) rfl
      (registry_modifyRegistry ih.recorded.here) ?_ nofun nofun
    exact ⟨(take_fewer _ key).lookup, (take_fewer _ key).length⟩
  | supply key home asks _ ih => exact ih.supply home asks key
  | get _ does ih => exact ih.does does
  | aside _ ha ih => exact ih.aside ha

/-- A registry that was empty at first holds what its history says, and its history is regular: a
key has never both a ready service and a factory, no factory is run twice, a lookup misses exactly
if the registry does not contain the key, and all lookups of a key between two registrations give
what was registered.  Every lookup comes to an end in one way, which the history goes on with, and a
lookup of a key that the registry does not contain does nothing but fail. -/
theorem resolve_once {h₀ : Hub} (hn : n < h₀.store.registries.size)
    (hempty : h₀.store.registry n = .empty) (hist : History n h₀ acts h) :
    h.store.registry n = Registry.ofLedger acts ∧ Regular acts ∧
      ∀ key, ∃ tr, Does n h (.get key) tr (h.resolve n key).1 (h.resolve n key).2 ∧
        (∀ tr' h' r, Does n h (.get key) tr' h' r →
          tr = tr' ∧ (h.resolve n key).1 = h' ∧ (h.resolve n key).2 = r) ∧
        (h.resolve n key).1.made = h.made ++ h.ran tr ∧
        (∀ v, (h.resolve n key).2 = .ok v ↔ ∃ act, tr.getLast? = some act ∧ act.Gives key v) ∧
        (tr = [.missed key] ↔ (h.store.registry n).contains key = false) ∧
        ((h.store.registry n).contains key = false →
          h.resolve n key = (h, .error (.unknownService key))) ∧
        ∀ tr' h', Amid n h (.get key) tr' h' →
          h'.store.registry n = Registry.ofLedger (acts ++ tr') ∧ Regular (acts ++ tr') := by
  have ht := hist.tended hn hempty
  refine ⟨ht.recorded.registry, ht.recorded.sound.regular, fun key => ?_⟩
  obtain ⟨tr, does⟩ := exists_does ht.obeying key
  refine ⟨tr, does, fun tr' h' r does' => does.unique does', does.made_eq, does.ok_iff,
    does.missed_iff, fun hc => ?_, fun tr' h' amid => ?_⟩
  · obtain ⟨-, hfst, hsnd⟩ := does.unique (does_of_not_contains hc)
    exact Prod.ext hfst hsnd
  · have hamid := amid.recorded ht.recorded
    exact ⟨hamid.registry, hamid.sound.regular⟩

/-- A hub with one registry, which holds nothing. -/
def vacant : Hub :=
  { empty with store := (empty.store.addRegistry .empty).1 }

/-- What makes a service by looking up another one. -/
def dependent : Factory :=
  ⟨"first", 0, 0, .resolve "b" fun
    | .ok v => .hand v
    | .error fault => .fail fault⟩

/-- What looks up a service and does not mind whether there is one. -/
def tolerant : Factory :=
  ⟨"second", 0, 0, .resolve "a" fun _ => .hand .none⟩

/-- A registry with two factories, each of which looks up what the other one makes. -/
def entwined : Hub :=
  (vacant.registerFactory 0 "a" dependent).registerFactory 0 "b" tolerant

/-- The second factory asks for what the first one is about to make, misses it and gives nothing,
which the first one hands on. -/
theorem entwined_does : Does 0 entwined (.get "a")
    [.began "a" 0, .began "b" 1, .missed "a", .gave "b" 1 .none, .gave "a" 0 .none]
    (entwined.resolve 0 "a").1 (entwined.resolve 0 "a").2 := by
  have heq : entwined.resolve 0 "a" =
      ((((entwined.begun 0 "a" 0).begun 0 "b" 1).kept 0 "b" .none).kept 0 "a" .none, .ok .none) :=
    rfl
  have second : Does 0 ((entwined.begun 0 "a" 0).begun 0 "b" 1)
      (.follow tolerant.recipe) ([.missed "a"] ++ [])
      ((entwined.begun 0 "a" 0).begun 0 "b" 1) (.ok .none) :=
    .resolve (.missed rfl rfl) .hand
  have asked : Does 0 (entwined.begun 0 "a" 0) (.get "b")
      [.began "b" 1, .missed "a", .gave "b" 1 .none]
      (((entwined.begun 0 "a" 0).begun 0 "b" 1).kept 0 "b" .none) (.ok .none) :=
    .gave rfl rfl second
  have first : Does 0 (entwined.begun 0 "a" 0) (.follow (entwined.factory 0).recipe)
      ([.began "b" 1, .missed "a", .gave "b" 1 .none] ++ [])
      (((entwined.begun 0 "a" 0).begun 0 "b" 1).kept 0 "b" .none) (.ok .none) :=
    .resolve asked .hand
  rw [heq]
  exact .gave rfl rfl first

theorem entwined_history : History 0 vacant
    [.supplied "a" 0, .supplied "b" 1, .began "a" 0, .began "b" 1, .missed "a", .gave "b" 1 .none,
      .gave "a" 0 .none] (entwined.resolve 0 "a").1 := by
  have hdependent : dependent.recipe.OnlyAsks := by
    refine .resolve ?_
    rintro (fault | v)
    · exact .fail
    · exact .hand
  have htolerant : tolerant.recipe.OnlyAsks := .resolve fun _ => .hand
  have hhome : dependent.home = 0 := rfl
  have hhome' : tolerant.home = 0 := rfl
  have first : History 0 vacant [.supplied "a" 0] (vacant.registerFactory 0 "a" dependent) :=
    .supply "a" hhome hdependent .start
  have second : History 0 vacant [.supplied "a" 0, .supplied "b" 1] entwined :=
    .supply "b" hhome' htolerant first
  exact second.get entwined_does

theorem resolve_once_entwined :
    (entwined.resolve 0 "a").1.store.registry 0 = ⟨[("b", .none), ("a", .none)], []⟩ ∧
      Regular [.supplied "a" 0, .supplied "b" 1, .began "a" 0, .began "b" 1, .missed "a",
        .gave "b" 1 .none, .gave "a" 0 .none] ∧
      (entwined.resolve 0 "a").1.made = ["first", "second"] := by
  obtain ⟨hregistry, hregular, -⟩ := resolve_once (by decide) rfl entwined_history
  exact ⟨hregistry, hregular, rfl⟩

end Hub

end PathStore
