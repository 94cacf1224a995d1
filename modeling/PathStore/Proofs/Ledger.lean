import Mathlib.Data.List.Induction
import Mathlib.Data.List.Nodup
import PathStore.Fault
import PathStore.Proofs.Prefixes
import PathStore.Registry

/-!
# Ledgers of a registry

A ledger lists what happened to a registry, which was empty at first, in the order in which it
happened: registrations, lookups and the beginnings and ends of the runs of factories.  What the
registry holds follows from the ledger (`Registry.ofLedger`), and so does what became of each key
(`Status.of`).  In a sound ledger every act fits the status that its key had (`Act.Fits`).  Then the
statuses tell what the registry holds (`Sound.shows`), no factory is begun twice
(`Sound.begun_nodup`), and a service that a lookup gives comes from the last registration under its
key (`Sound.source`).  All this together makes a ledger regular (`Sound.regular`).
-/

namespace PathStore

/-- What happens to a registry. -/
inductive Act where
  | registered (key : Text) (service : Value)
  /-- A factory, known by its number, was registered. -/
  | supplied (key : Text) (factory : Nat)
  | unregistered (key : Text)
  /-- A lookup met a ready service and gave it. -/
  | found (key : Text) (service : Value)
  /-- A lookup met neither a ready service nor a factory. -/
  | missed (key : Text)
  /-- A lookup met a factory, took it out and began to run it. -/
  | began (key : Text) (factory : Nat)
  /-- The run of a factory gave a service, which was kept and given to whoever looked it up. -/
  | gave (key : Text) (factory : Nat) (service : Value)
  /-- The run of a factory failed. -/
  | failed (key : Text) (factory : Nat) (fault : Fault)

namespace Act

/-- The factory that an act begins to run. -/
def begun? : Act → Option Nat
  | began _ m => some m
  | _ => none

/-- The act is the beginning of a lookup of the key. -/
def LooksUp (key : Text) : Act → Prop
  | found k _ => k = key
  | missed k => k = key
  | began k _ => k = key
  | _ => False

/-- The act ends a lookup of the key by giving a service. -/
def Gives (key : Text) (service : Value) : Act → Prop
  | found k v => k = key ∧ v = service
  | gave k _ v => k = key ∧ v = service
  | _ => False

/-- The act registers something under the key or takes away what is registered there. -/
def Registers (key : Text) : Act → Prop
  | registered k _ => k = key
  | supplied k _ => k = key
  | unregistered k => k = key
  | _ => False

end Act

/-- A registry after an act. -/
def Registry.after (r : Registry) : Act → Registry
  | .registered key v => r.register key v
  | .supplied key m => r.registerFactory key m
  | .unregistered key => r.unregister key
  | .began key _ => r.take key
  | .gave key _ v => r.keep key v
  | _ => r

/-- What a registry holds after the acts of a ledger. -/
def Registry.ofLedger (acts : List Act) : Registry :=
  acts.foldl Registry.after .empty

/-! ## Keys -/

/-- What became of a key. -/
inductive Status where
  | absent
  | ready (service : Value)
  /-- A factory is registered and has not been run. -/
  | pending (factory : Nat)
  | running (factory : Nat)

/-- The status of a key after an act. -/
def Status.after (key : Text) (s : Status) : Act → Status
  | .registered k v => if k = key then .ready v else s
  | .supplied k m => if k = key then .pending m else s
  | .unregistered k => if k = key then .absent else s
  | .began k m => if k = key then .running m else s
  | .gave k _ v => if k = key then .ready v else s
  | .failed k _ _ => if k = key then .absent else s
  | .found _ _ => s
  | .missed _ => s

/-- The status of a key after the acts of a ledger. -/
def Status.of (key : Text) (acts : List Act) : Status :=
  acts.foldl (Status.after key) .absent

/-- What was registered last under a key. -/
inductive Origin where
  | nothing
  | readyMade (service : Value)
  | factory (number : Nat)

/-- What was registered last under a key, after an act. -/
def Origin.after (key : Text) (o : Origin) : Act → Origin
  | .registered k v => if k = key then .readyMade v else o
  | .supplied k m => if k = key then .factory m else o
  | .unregistered k => if k = key then .nothing else o
  | _ => o

/-- What was registered last under a key according to a ledger. -/
def Origin.of (key : Text) (acts : List Act) : Origin :=
  acts.foldl (Origin.after key) .nothing

/-- The service is what was registered: the ready one, or the one that the factory gave. -/
def Origin.Yields (key : Text) (acts : List Act) (service : Value) : Origin → Prop
  | .nothing => False
  | .readyMade v => v = service
  | .factory m => .gave key m service ∈ acts

variable {acts acts' : List Act} {act : Act} {key key' : Text} {v v' : Value} {m m' : Nat}

theorem Registry.ofLedger_concat (acts : List Act) (act : Act) :
    Registry.ofLedger (acts ++ [act]) = (Registry.ofLedger acts).after act :=
  List.foldl_concat _ _ _ _

theorem Status.of_concat (key : Text) (acts : List Act) (act : Act) :
    Status.of key (acts ++ [act]) = (Status.of key acts).after key act :=
  List.foldl_concat _ _ _ _

theorem Origin.of_concat (key : Text) (acts : List Act) (act : Act) :
    Origin.of key (acts ++ [act]) = (Origin.of key acts).after key act :=
  List.foldl_concat _ _ _ _

/-! ## One act -/

/-- A factory waits because it was just registered, or it has been waiting. -/
theorem Status.after_eq_pending {s : Status} (h : s.after key act = .pending m) :
    act = .supplied key m ∨
      (s = .pending m ∧ ¬ act.Registers key ∧ ∀ m', act ≠ .began key m') := by
  cases act <;> simp only [Status.after, Act.Registers] at h ⊢ <;> grind

/-- A factory runs because it was just begun, or it has been running. -/
theorem Status.after_eq_running {s : Status} (h : s.after key act = .running m) :
    act = .began key m ∨
      (s = .running m ∧ ¬ act.Registers key ∧ ∀ m' v, act ≠ .gave key m' v) := by
  cases act <;> simp only [Status.after, Act.Registers] at h ⊢ <;> grind

/-- A service is ready because it was just registered or just given, or it has been ready. -/
theorem Status.after_eq_ready {s : Status} (h : s.after key act = .ready v) :
    act = .registered key v ∨ (∃ m, act = .gave key m v) ∨
      (s = .ready v ∧ ¬ act.Registers key) := by
  cases act with
  | gave k m w =>
    by_cases hk : k = key
    · simp only [Status.after, hk, if_true, Status.ready.injEq] at h
      exact .inr (.inl ⟨m, by rw [hk, h]⟩)
    · simp only [Status.after, hk, if_false] at h
      exact .inr (.inr ⟨h, not_false⟩)
  | _ =>
    simp only [Status.after, Act.Registers] at h ⊢
    grind

theorem Origin.after_eq_self {o : Origin} (h : ¬ act.Registers key) : o.after key act = o := by
  cases act with
  | registered k v => exact if_neg h
  | supplied k m => exact if_neg h
  | unregistered k => exact if_neg h
  | _ => rfl

/-- What was registered last stays as long as nothing is registered and nothing taken away. -/
theorem Origin.of_append_of_quiet (h : ∀ act ∈ acts', ¬ act.Registers key) :
    Origin.of key (acts ++ acts') = Origin.of key acts := by
  induction acts' using List.reverseRecOn with
  | nil => rw [List.append_nil]
  | append_singleton acts' act ih =>
    obtain ⟨hrest, hact⟩ := List.forall_mem_append.1 h
    rw [← List.append_assoc, Origin.of_concat, ih hrest]
    exact Origin.after_eq_self (hact act (List.mem_singleton_self act))

theorem Origin.Yields.append {o : Origin} (h : o.Yields key acts v) (acts' : List Act) :
    o.Yields key (acts ++ acts') v := by
  cases o with
  | nothing => exact h
  | readyMade w => exact h
  | factory m => exact List.mem_append_left _ h

theorem Act.Gives.not_registers (h : act.Gives key v) : ¬ act.Registers key := by
  cases act with
  | found k w => exact not_false
  | gave k m w => exact not_false
  | _ => cases h

/-! ## Sound ledgers -/

/-- The act fits what the acts before it made of its key.  Nothing is registered under a key whose
factory runs, and a factory that is registered is a new one. -/
def Act.Fits (past : List Act) : Act → Prop
  | .registered key _ => ∀ m, Status.of key past ≠ .running m
  | .supplied key m => (∀ m, Status.of key past ≠ .running m) ∧ ∀ k, .supplied k m ∉ past
  | .unregistered key => ∀ m, Status.of key past ≠ .running m
  | .found key v => Status.of key past = .ready v
  | .missed key => Status.of key past = .absent ∨ ∃ m, Status.of key past = .running m
  | .began key m => Status.of key past = .pending m
  | .gave key m _ => Status.of key past = .running m
  | .failed key m _ => Status.of key past = .running m

/-- Every act of the ledger fits the acts before it. -/
abbrev Sound (acts : List Act) : Prop := EachAfter Act.Fits acts

/-- What a registry holds under a key is what the status of the key says. -/
structure Registry.Shows (r : Registry) (key : Text) (s : Status) : Prop where
  ready : ∀ v, r.ready.lookup key = some v ↔ s = .ready v
  pending : ∀ m, r.factories.lookup key = some m ↔ s = .pending m

/-- An act that fits the status of its key changes registry and status in the same way. -/
theorem Registry.Shows.after {r : Registry} {past : List Act}
    (h : r.Shows key (Status.of key past)) (hfits : act.Fits past) :
    (r.after act).Shows key ((Status.of key past).after key act) := by
  obtain ⟨hready, hpending⟩ := h
  cases act with
  | registered k v =>
    constructor <;> intro x <;> simp only [Registry.after, Status.after] <;> grind
  | supplied k m =>
    constructor <;> intro x <;> simp only [Registry.after, Status.after] <;> grind
  | unregistered k =>
    constructor <;> intro x <;> simp only [Registry.after, Status.after] <;> grind
  | began k m =>
    have hk : Status.of k past = .pending m := hfits
    constructor <;> intro x <;> simp only [Registry.after, Status.after] <;> grind
  | gave k m v =>
    have hk : Status.of k past = .running m := hfits
    constructor <;> intro x <;> simp only [Registry.after, Status.after] <;> grind
  | failed k m fault =>
    have hk : Status.of k past = .running m := hfits
    constructor <;> intro x <;> simp only [Registry.after, Status.after] <;> grind
  | found k v => exact ⟨hready, hpending⟩
  | missed k => exact ⟨hready, hpending⟩

namespace Sound

theorem concat_iff : Sound (acts ++ [act]) ↔ Sound acts ∧ act.Fits acts := by
  rw [Sound, eachAfter_concat]

theorem of_append (h : Sound (acts ++ acts')) : Sound acts :=
  (eachAfter_append.1 h).1

/-- A member of a sound ledger fits the acts before it. -/
theorem exists_fits (h : Sound acts) (hact : act ∈ acts) :
    ∃ pre post, acts = pre ++ act :: post ∧ Sound pre ∧ act.Fits pre := by
  obtain ⟨pre, post, rfl⟩ := List.append_of_mem hact
  exact ⟨pre, post, rfl, h.of_append, h pre act post rfl⟩

/-- The registry holds what the statuses say. -/
theorem shows (h : Sound acts) (key : Text) :
    (Registry.ofLedger acts).Shows key (Status.of key acts) := by
  induction acts using List.reverseRecOn with
  | nil => exact ⟨fun v => iff_of_false nofun nofun, fun m => iff_of_false nofun nofun⟩
  | append_singleton acts act ih =>
    obtain ⟨hacts, hfits⟩ := concat_iff.1 h
    rw [Registry.ofLedger_concat, Status.of_concat]
    exact (ih hacts).after hfits

/-- A key has never both a ready service and a factory. -/
theorem disjoint (h : Sound acts) (key : Text) :
    (Registry.ofLedger acts).ready.lookup key = none ∨
      (Registry.ofLedger acts).factories.lookup key = none := by
  have hshows := h.shows key
  by_contra hboth
  push Not at hboth
  obtain ⟨v, hv⟩ := Option.ne_none_iff_exists'.1 hboth.1
  obtain ⟨m, hm⟩ := Option.ne_none_iff_exists'.1 hboth.2
  rw [hshows.ready, (hshows.pending m).1 hm] at hv
  cases hv

/-! ## Runs of factories -/

/-- A factory that waits or runs was registered last under its key. -/
theorem origin_of_waiting (h : Sound acts)
    (hs : Status.of key acts = .pending m ∨ Status.of key acts = .running m) :
    Origin.of key acts = .factory m := by
  induction acts using List.reverseRecOn with
  | nil => rcases hs with hs | hs <;> cases hs
  | append_singleton acts act ih =>
    obtain ⟨hacts, hfits⟩ := concat_iff.1 h
    rw [Status.of_concat] at hs
    rw [Origin.of_concat]
    rcases hs with hs | hs
    · obtain rfl | ⟨hs, hquiet, -⟩ := Status.after_eq_pending hs
      · exact if_pos rfl
      · exact (Origin.after_eq_self hquiet).trans (ih hacts (Or.inl hs))
    · obtain rfl | ⟨hs, hquiet, -⟩ := Status.after_eq_running hs
      · -- it was waiting when it was begun
        exact ih hacts (Or.inl hfits)
      · exact (Origin.after_eq_self hquiet).trans (ih hacts (Or.inr hs))

/-- A factory that was registered last under a key was registered. -/
theorem supplied_of_origin (h : Origin.of key acts = .factory m) : .supplied key m ∈ acts := by
  induction acts using List.reverseRecOn with
  | nil => cases h
  | append_singleton acts act ih =>
    rw [Origin.of_concat] at h
    cases act <;> simp only [Origin.after] at h <;> grind

theorem supplied_of_waiting (h : Sound acts)
    (hs : Status.of key acts = .pending m ∨ Status.of key acts = .running m) :
    .supplied key m ∈ acts :=
  supplied_of_origin (h.origin_of_waiting hs)

/-- A factory is registered under one key only. -/
theorem supplied_inj (h : Sound acts) (hk : .supplied key m ∈ acts)
    (hk' : .supplied key' m ∈ acts) : key = key' := by
  induction acts using List.reverseRecOn with
  | nil => cases hk
  | append_singleton acts act ih =>
    obtain ⟨hacts, hfits⟩ := concat_iff.1 h
    rw [List.mem_append, List.mem_singleton] at hk hk'
    rcases hk with hk | rfl
    · rcases hk' with hk' | rfl
      · exact ih hacts hk hk'
      · exact absurd hk (hfits.2 key)
    · rcases hk' with hk' | hk'
      · exact absurd hk' (hfits.2 key')
      · exact (Act.supplied.inj hk').1.symm

/-- A factory that was begun had been registered. -/
theorem supplied_of_began (h : Sound acts) (hb : .began key m ∈ acts) :
    .supplied key m ∈ acts := by
  obtain ⟨pre, post, rfl, hpre, hfits⟩ := h.exists_fits hb
  exact List.mem_append_left _ (hpre.supplied_of_waiting (Or.inl hfits))

/-- A factory waits or runs under one key only. -/
theorem waiting_inj (h : Sound acts)
    (hk : Status.of key acts = .pending m ∨ Status.of key acts = .running m)
    (hk' : Status.of key' acts = .pending m ∨ Status.of key' acts = .running m) : key = key' :=
  h.supplied_inj (h.supplied_of_waiting hk) (h.supplied_of_waiting hk')

/-- A factory that waits has not been begun. -/
theorem not_began_of_pending (h : Sound acts) (hs : Status.of key acts = .pending m) (key' : Text) :
    .began key' m ∉ acts := by
  induction acts using List.reverseRecOn with
  | nil => exact List.not_mem_nil
  | append_singleton acts act ih =>
    obtain ⟨hacts, hfits⟩ := concat_iff.1 h
    rw [Status.of_concat] at hs
    rw [List.mem_append, List.mem_singleton, not_or]
    obtain rfl | ⟨hwaits, -, hnot⟩ := Status.after_eq_pending hs
    · -- the factory is a new one
      exact ⟨fun hb => hfits.2 key' (hacts.supplied_of_began hb), nofun⟩
    · refine ⟨ih hacts hwaits, ?_⟩
      rintro rfl
      exact hnot m (by rw [hacts.waiting_inj (Or.inl hwaits) (Or.inl hfits)])

theorem mem_begun_iff : m ∈ acts.filterMap Act.begun? ↔ ∃ key, .began key m ∈ acts := by
  rw [List.mem_filterMap]
  constructor
  · rintro ⟨act, hact, hm⟩
    cases act with
    | began k m' =>
      obtain rfl := Option.some.inj hm
      exact ⟨k, hact⟩
    | _ => cases hm
  · rintro ⟨key, hb⟩
    exact ⟨_, hb, rfl⟩

/-- No factory is begun twice. -/
theorem begun_nodup (h : Sound acts) : (acts.filterMap Act.begun?).Nodup := by
  induction acts using List.reverseRecOn with
  | nil => exact List.nodup_nil
  | append_singleton acts act ih =>
    obtain ⟨hacts, hfits⟩ := concat_iff.1 h
    rw [List.filterMap_append]
    cases act with
    | began k m =>
      refine List.nodup_append.2 ⟨ih hacts, List.nodup_singleton m, fun x hx y hy hxy => ?_⟩
      obtain rfl : y = m := List.mem_singleton.1 hy
      obtain ⟨key', hb⟩ := mem_begun_iff.1 hx
      rw [hxy] at hb
      exact hacts.not_began_of_pending hfits key' hb
    | _ =>
      rw [List.filterMap_cons_none rfl, List.filterMap_nil, List.append_nil]
      exact ih hacts

/-- A factory that runs has been begun. -/
theorem began_of_running (h : Sound acts) (hs : Status.of key acts = .running m) :
    .began key m ∈ acts := by
  induction acts using List.reverseRecOn with
  | nil => cases hs
  | append_singleton acts act ih =>
    obtain ⟨hacts, -⟩ := concat_iff.1 h
    rw [Status.of_concat] at hs
    obtain rfl | ⟨hs, -⟩ := Status.after_eq_running hs
    · exact List.mem_append_right _ (List.mem_singleton_self _)
    · exact List.mem_append_left _ (ih hacts hs)

theorem began_of_gave (h : Sound acts) (hg : .gave key m v ∈ acts) : .began key m ∈ acts := by
  obtain ⟨pre, post, rfl, hpre, hfits⟩ := h.exists_fits hg
  exact List.mem_append_left _ (hpre.began_of_running hfits)

/-- A factory that runs has given nothing yet. -/
theorem not_gave_of_running (h : Sound acts) (hs : Status.of key acts = .running m) (key' : Text)
    (v : Value) : .gave key' m v ∉ acts := by
  induction acts using List.reverseRecOn with
  | nil => exact List.not_mem_nil
  | append_singleton acts act ih =>
    obtain ⟨hacts, hfits⟩ := concat_iff.1 h
    rw [Status.of_concat] at hs
    rw [List.mem_append, List.mem_singleton, not_or]
    obtain rfl | ⟨hruns, -, hnot⟩ := Status.after_eq_running hs
    · -- it was waiting until now
      exact ⟨fun hg => hacts.not_began_of_pending hfits key' (hacts.began_of_gave hg), nofun⟩
    · refine ⟨ih hacts hruns, ?_⟩
      rintro rfl
      exact hnot m v (by rw [hacts.waiting_inj (Or.inr hruns) (Or.inr hfits)])

/-- A factory gives one service only. -/
theorem gave_unique (h : Sound acts) (hg : .gave key m v ∈ acts) (hg' : .gave key' m v' ∈ acts) :
    v = v' := by
  induction acts using List.reverseRecOn with
  | nil => cases hg
  | append_singleton acts act ih =>
    obtain ⟨hacts, hfits⟩ := concat_iff.1 h
    rw [List.mem_append, List.mem_singleton] at hg hg'
    rcases hg with hg | rfl
    · rcases hg' with hg' | rfl
      · exact ih hacts hg hg'
      · exact absurd hg (hacts.not_gave_of_running hfits key v)
    · rcases hg' with hg' | hg'
      · exact absurd hg' (hacts.not_gave_of_running hfits key' v')
      · exact (Act.gave.inj hg').2.2.symm

/-! ## Where services come from -/

/-- A ready service is what was registered last under its key. -/
theorem yields_of_ready (h : Sound acts) (hs : Status.of key acts = .ready v) :
    (Origin.of key acts).Yields key acts v := by
  induction acts using List.reverseRecOn with
  | nil => cases hs
  | append_singleton acts act ih =>
    obtain ⟨hacts, hfits⟩ := concat_iff.1 h
    rw [Status.of_concat] at hs
    rw [Origin.of_concat]
    obtain rfl | ⟨m, rfl⟩ | ⟨hs, hquiet⟩ := Status.after_eq_ready hs
    · rw [Origin.after, if_pos rfl]
      exact rfl
    · -- the factory that gives was registered last
      have hquiet : ¬ (Act.gave key m v).Registers key := not_false
      rw [Origin.after_eq_self hquiet, hacts.origin_of_waiting (Or.inr hfits)]
      exact List.mem_append_right _ (List.mem_singleton_self _)
    · rw [Origin.after_eq_self hquiet]
      exact (ih hacts hs).append [act]

/-- The service that a lookup gives is what was registered last under its key. -/
theorem source (h : Sound (acts ++ [act])) (hgives : act.Gives key v) :
    (Origin.of key acts).Yields key (acts ++ [act]) v := by
  obtain ⟨hacts, hfits⟩ := concat_iff.1 h
  cases act with
  | found k w =>
    obtain ⟨rfl, rfl⟩ := hgives
    exact (hacts.yields_of_ready hfits).append _
  | gave k m w =>
    obtain ⟨rfl, rfl⟩ := hgives
    rw [hacts.origin_of_waiting (Or.inr hfits)]
    exact List.mem_append_right _ (List.mem_singleton_self _)
  | _ => cases hgives

/-- A registration yields one service only. -/
theorem yields_unique (h : Sound acts) {o : Origin} (hv : o.Yields key acts v)
    (hv' : o.Yields key acts v') : v = v' := by
  cases o with
  | nothing => cases hv
  | readyMade w => exact hv.symm.trans hv'
  | factory m => exact h.gave_unique hv hv'

/-- Lookups of a key give the same service as long as nothing is registered under it and nothing
taken away. -/
theorem same_service {pre mid post : List Act} {first last : Act}
    (h : Sound (pre ++ first :: (mid ++ last :: post))) (hfirst : first.Gives key v)
    (hlast : last.Gives key v') (hmid : ∀ act ∈ mid, ¬ act.Registers key) : v = v' := by
  have hquiet : ∀ act ∈ first :: mid, ¬ act.Registers key :=
    List.forall_mem_cons.2 ⟨hfirst.not_registers, hmid⟩
  have hsplit : pre ++ first :: (mid ++ last :: post) =
      (pre ++ first :: mid) ++ [last] ++ post := by
    simp only [List.append_assoc, List.cons_append, List.nil_append]
  have hupto : pre ++ first :: (mid ++ last :: post) = pre ++ [first] ++ (mid ++ last :: post) := by
    simp only [List.append_assoc, List.cons_append, List.nil_append]
  have hv : (Origin.of key pre).Yields key (pre ++ first :: (mid ++ last :: post)) v := by
    rw [hupto] at h ⊢
    exact (h.of_append.source hfirst).append _
  have hv' : (Origin.of key pre).Yields key (pre ++ first :: (mid ++ last :: post)) v' := by
    rw [hsplit] at h ⊢
    rw [← Origin.of_append_of_quiet hquiet]
    exact (h.of_append.source hlast).append _
  exact h.yields_unique hv hv'

/-! ## Lookups that meet nothing -/

theorem not_contains_iff (h : Sound acts) (key : Text) :
    (Registry.ofLedger acts).contains key = false ↔
      Status.of key acts = .absent ∨ ∃ m, Status.of key acts = .running m := by
  have hshows := h.shows key
  rw [Registry.contains_eq_false_iff, Option.eq_none_iff_forall_ne_some,
    Option.eq_none_iff_forall_ne_some]
  simp only [ne_eq, hshows.ready, hshows.pending]
  cases Status.of key acts with
  | absent => exact iff_of_true ⟨nofun, nofun⟩ (Or.inl rfl)
  | ready v =>
    refine iff_of_false (fun hnone => hnone.1 v rfl) ?_
    rintro (h | ⟨m, h⟩) <;> cases h
  | pending m =>
    refine iff_of_false (fun hnone => hnone.2 m rfl) ?_
    rintro (h | ⟨m, h⟩) <;> cases h
  | running m => exact iff_of_true ⟨nofun, nofun⟩ (Or.inr ⟨m, rfl⟩)

/-- A lookup misses exactly if the registry does not contain the key. -/
theorem missed_iff (h : Sound (acts ++ [act])) (hlooks : act.LooksUp key) :
    act = .missed key ↔ (Registry.ofLedger acts).contains key = false := by
  obtain ⟨hacts, hfits⟩ := concat_iff.1 h
  rw [hacts.not_contains_iff]
  cases act with
  | found k v =>
    obtain rfl : k = key := hlooks
    have hk : Status.of k acts = .ready v := hfits
    rw [hk]
    exact iff_of_false nofun (by rintro (h | ⟨m, h⟩) <;> cases h)
  | missed k =>
    obtain rfl : k = key := hlooks
    exact iff_of_true rfl hfits
  | began k m =>
    obtain rfl : k = key := hlooks
    have hk : Status.of k acts = .pending m := hfits
    rw [hk]
    exact iff_of_false nofun (by rintro (h | ⟨m, h⟩) <;> cases h)
  | _ => cases hlooks

end Sound

/-! ## Regular ledgers -/

/-- The history of a registry is in order. -/
structure Regular (acts : List Act) : Prop where
  /-- At no time a key has both a ready service and a factory. -/
  disjoint : ∀ pre post, acts = pre ++ post → ∀ key,
    (Registry.ofLedger pre).ready.lookup key = none ∨
      (Registry.ofLedger pre).factories.lookup key = none
  /-- No factory is begun twice. -/
  once : (acts.filterMap Act.begun?).Nodup
  /-- A lookup misses exactly if the registry does not contain the key at that time. -/
  missed : ∀ pre act post key, acts = pre ++ act :: post → act.LooksUp key →
    (act = .missed key ↔ (Registry.ofLedger pre).contains key = false)
  /-- The service that a lookup gives is what was registered last under its key: the ready one, or
  the one that the factory gave. -/
  source : ∀ pre act post key v, acts = pre ++ act :: post → act.Gives key v →
    (Origin.of key pre).Yields key (pre ++ [act]) v
  /-- A factory gives one service only. -/
  unique : ∀ key key' m v v', .gave key m v ∈ acts → .gave key' m v' ∈ acts → v = v'
  /-- Lookups of a key give the same service as long as nothing is registered under it and nothing
  taken away. -/
  same : ∀ pre first mid last post key v v', acts = pre ++ first :: (mid ++ last :: post) →
    first.Gives key v → last.Gives key v' → (∀ act ∈ mid, ¬ act.Registers key) → v = v'

theorem Sound.regular (h : Sound acts) : Regular acts where
  disjoint pre post hacts key := by
    subst hacts
    exact h.of_append.disjoint key
  once := h.begun_nodup
  missed pre act post key hacts hlooks := by
    rw [hacts, List.append_cons] at h
    exact h.of_append.missed_iff hlooks
  source pre act post key v hacts hgives := by
    rw [hacts, List.append_cons] at h
    exact h.of_append.source hgives
  unique key key' m v v' hg hg' := h.gave_unique hg hg'
  same pre first mid last post key v v' hacts hfirst hlast hmid := by
    subst hacts
    exact h.same_service hfirst hlast hmid

end PathStore
