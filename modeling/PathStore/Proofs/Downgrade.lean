import Mathlib
import PathStore.Proofs.Alike

/-!
# Lists replaced by mappings

A tree in which lists below the root are replaced by the mappings from `0`, `1`, … to their items
(`Downgraded`) is alike to the tree that it came from.  So callers of a storage who write under keys,
and keep the slots of what they delete, cannot tell the two apart (`Storage.lists_as_mappings`):
every operation has the same outcome on both, up to reading lists as mappings, as long as no list is
to grow past what it can.
-/

namespace PathStore

namespace Data

/-! ## Definitions -/

/-- `t'` is `t` with any of its lists replaced by the mappings from their positions to the items. -/
inductive Downgraded : Data → Data → Prop
  | leaf (a : Atom) : Downgraded (leaf a) (leaf a)
  | set (ks : List MapKey) : Downgraded (set ks) (set ks)
  | tuple {xs ys : List Data} (length : xs.length = ys.length)
      (items : ∀ i, Downgraded (at? xs i) (at? ys i)) : Downgraded (tuple xs) (tuple ys)
  | list {xs ys : List Data} (length : xs.length = ys.length)
      (items : ∀ i, Downgraded (at? xs i) (at? ys i)) : Downgraded (list xs) (list ys)
  | replaced {xs ys : List Data} (length : xs.length = ys.length)
      (items : ∀ i, Downgraded (at? xs i) (at? ys i)) :
      Downgraded (list xs) (mapping .plain (Entries.numbered 0 ys))
  | mapping {kind : MappingKind} {es fs : Entries Data} (keys : es.map Prod.fst = fs.map Prod.fst)
      (values : ∀ i, Downgraded (at? (es.map Prod.snd) i) (at? (fs.map Prod.snd) i)) :
      Downgraded (mapping kind es) (mapping kind fs)

/-! ## Downgraded trees are alike -/

section
variable {R : Data → Data → Prop} {xs ys : List Data} {es fs : Entries Data}

theorem at?_of_forall₂ (hR : R nothing nothing) (h : List.Forall₂ R xs ys) (i : Nat) :
    R (at? xs i) (at? ys i) := by
  induction h generalizing i with
  | nil => exact hR
  | cons hx _ ih =>
    cases i with
    | zero => exact hx
    | succ i => exact ih i

/-- Entries under the same keys correspond when their values do. -/
theorem forall₂_of_at? (keys : es.map Prod.fst = fs.map Prod.fst)
    (values : ∀ i, R (at? (es.map Prod.snd) i) (at? (fs.map Prod.snd) i)) :
    List.Forall₂ (fun e f => e.1 = f.1 ∧ R e.2 f.2) es fs := by
  induction es generalizing fs with
  | nil =>
    rw [List.map_nil, eq_comm, List.map_eq_nil_iff] at keys
    subst keys
    exact .nil
  | cons e es ih =>
    cases fs with
    | nil => cases keys
    | cons f fs =>
      rw [List.map_cons, List.map_cons, List.cons.injEq] at keys
      exact .cons ⟨keys.1, values 0⟩ (ih keys.2 fun i => values (i + 1))

theorem find?_of_forall₂ (hR : R nothing nothing)
    (h : List.Forall₂ (fun e f => e.1 = f.1 ∧ R e.2 f.2) es fs) (k : MapKey) :
    R ((Entries.find? k es).getD nothing) ((Entries.find? k fs).getD nothing) := by
  induction h with
  | nil => exact hR
  | @cons e f es fs he _ ih =>
    rw [Entries.find?, Entries.find?, he.1]
    split
    · exact he.2
    · exact ih

end

variable {t t' : Data}

theorem entry_list_decimal (xs : List Data) (n : Nat) :
    (list xs).entry (Text.decimal n) = at? xs n := by
  rw [entry, entries, Entries.find?_numbered_decimal, if_pos (Nat.zero_le n), Nat.sub_zero, at?]

/-- Lists of alike items read as alike mappings. -/
theorem alike_entry_list {xs ys : List Data} (items : ∀ i, Alike (at? xs i) (at? ys i))
    (name : Text) : Alike ((list xs).entry name) ((list ys).entry name) := by
  by_cases hname : ∃ n : Nat, name = Text.decimal n
  · obtain ⟨n, rfl⟩ := hname
    rw [entry_list_decimal, entry_list_decimal]
    exact items n
  · have hne : ∀ n : Nat, name ≠ Text.decimal n := fun n heq => hname ⟨n, heq⟩
    simp only [entry, entries, Entries.find?_numbered_of_ne hne]
    exact .leaf .none

theorem Downgraded.alike (h : Downgraded t t') : Alike t t' := by
  induction h with
  | leaf a => exact .leaf a
  | set ks => exact .set ks
  | tuple length _ ih => exact .tuple length ih
  | list _ _ ih =>
    refine .container rfl rfl rfl (alike_entry_list ih) ?_ ?_
    · rw [others_list, others_list]
    · rw [others_list, others_list]
      exact fun _ => .leaf .none
  | @replaced xs ys _ _ ih =>
    -- the mapping has the entries that the list of the items reads as
    have hothers : (Data.mapping .plain (Entries.numbered 0 ys)).others = [] := others_list ys
    refine .container rfl rfl rfl (alike_entry_list ih) ?_ ?_
    · rw [others_list, hothers]
    · rw [others_list, hothers]
      exact fun _ => .leaf .none
  | @mapping kind es fs keys _ ih =>
    have hall := forall₂_of_at? keys ih
    have hothers : List.Forall₂ (fun e f => e.1 = f.1 ∧ Alike e.2 f.2)
        (Data.mapping kind es).others (Data.mapping kind fs).others :=
      List.rel_filter (fun e f hef => by simp only [hef.1]) hall
    refine .container rfl rfl rfl (fun name => find?_of_forall₂ (.leaf .none) hall _) ?_ ?_
    · rw [← List.forall₂_eq_eq_eq, List.forall₂_map_left_iff, List.forall₂_map_right_iff]
      exact hothers.imp fun _ _ h => h.1
    · refine at?_of_forall₂ (.leaf .none) ?_
      rw [List.forall₂_map_left_iff, List.forall₂_map_right_iff]
      exact hothers.imp fun _ _ h => h.2

theorem Downgraded.isMapping (h : Downgraded t t') (hm : t.isMapping = true) :
    t'.isMapping = true := by
  cases h <;> first | rfl | cases hm

end Data

/-! ## Runs of a storage -/

namespace Storage

open Store Data

/-- Operations on a storage, carried out one after the other from `s₀` on, have led to `s` with these
outcomes.  Before a value is set it is made: no container occurs twice in it, and none that is in the
tree of the storage. -/
inductive Served (st : Storage) (s₀ : Store) : List Op → List (Except Fault Data) → Store → Prop
  | start : Served st s₀ [] [] s₀
  | get {ops : List Op} {outs : List (Except Fault Data)} {s : Store}
      (run : Served st s₀ ops outs s) (key : Atom) (scalar : isScalar key = true) (copy : Nat) :
      Served st s₀ (ops ++ [.get key]) (outs ++ [(st.get s (.atom key copy)).map s.tree]) s
  | set {ops : List Op} {outs : List (Except Fault Data)} {s s' : Store} {v : Value}
      (run : Served st s₀ ops outs s) (key : Atom) (scalar : isScalar key = true) (copy : Nat)
      (grows : s.Grows s') (unshared : s'.Unshared v)
      (apart : s'.Apart Cell.isContainer v st.root) :
      Served st s₀ (ops ++ [.set key (s'.tree v)])
        (outs ++ [(st.set s' (.atom key copy) v).result.map fun _ => nothing])
        (st.set s' (.atom key copy) v).store
  | delete {ops : List Op} {outs : List (Except Fault Data)} {s : Store}
      (run : Served st s₀ ops outs s) (key : Atom) (scalar : isScalar key = true) (copy : Nat)
      (keep : Choice) :
      Served st s₀ (ops ++ [.delete key keep])
        (outs ++ [(st.delete s (.atom key copy) keep).result.map
          (st.delete s (.atom key copy) keep).store.tree])
        (st.delete s (.atom key copy) keep).store

/-- A run does to the contents of a storage what its operations do to a tree. -/
theorem Served.performAll {st : Storage} {s₀ s : Store} {ops : List Op}
    {outs : List (Except Fault Data)} (run : Served st s₀ ops outs s) (hf : s₀.IsFinite st.root)
    (hs : s₀.Separate st.root) :
    s.IsFinite st.root ∧ s.Separate st.root ∧
      (s₀.tree st.root).performAll ops = (s.tree st.root, outs) := by
  induction run with
  | start => exact ⟨hf, hs, rfl⟩
  | get run key scalar copy ih =>
    obtain ⟨hf, hs, hall⟩ := ih
    refine ⟨hf, hs, ?_⟩
    rw [performAll_concat, hall, get_spec hf scalar copy]
    rfl
  | set run key scalar copy grows unshared apart ih =>
    obtain ⟨hf, hs, hall⟩ := ih
    have hk := grows.keeps hf.closed
    obtain ⟨hf', hs', hset⟩ := set_spec (hk.isFinite hf) (hk.separate hs) unshared.isFinite
      unshared.separate apart scalar copy
    refine ⟨hf', hs', ?_⟩
    rw [performAll_concat, hall, ← hk.tree hf]
    simp only [perform, hset]
  | delete run key scalar copy keep ih =>
    obtain ⟨hf, hs, hall⟩ := ih
    obtain ⟨hf', hs', -, hdel⟩ := delete_spec hf hs key copy keep
    refine ⟨hf', hs', ?_⟩
    rw [performAll_concat, hall]
    simp only [perform, hdel]

/-- The same operations on two storages, one of which has lists below its root replaced by mappings,
have the same outcomes and leave trees that are alike, up to reading lists as mappings, as long as
deletions keep slots and no list is to grow past what it can. -/
theorem lists_as_mappings {st st' : Storage} {s₀ s₀' s s' : Store} {ops : List Op}
    {outs outs' : List (Except Fault Data)} (hm : (s₀.tree st.root).isMapping = true)
    (hu : s₀.Unshared st.root) (hu' : s₀'.Unshared st'.root)
    (hd : Downgraded (s₀.tree st.root) (s₀'.tree st'.root))
    (hk : ∀ op ∈ ops, op.keepsSlots = true)
    (run : st.Served s₀ ops outs s) (run' : st'.Served s₀' ops outs' s')
    (hno : ∀ e ∈ outs, ¬ Overflows e) (hno' : ∀ e ∈ outs', ¬ Overflows e) :
    List.Forall₂ (Agree Alike) outs outs' ∧ Alike (s.tree st.root) (s'.tree st'.root) := by
  obtain ⟨-, -, hall⟩ := run.performAll hu.isFinite hu.separate
  obtain ⟨-, -, hall'⟩ := run'.performAll hu'.isFinite hu'.separate
  have hboth := performAll_alike hd.alike hm (hd.isMapping hm) hk
    (by rw [hall]; exact hno) (by rw [hall']; exact hno')
  rw [hall, hall'] at hboth
  exact hboth.symm

/-- A position past the end is set below a list and below the mapping that replaces it, and a
position between is got: nothing is there in the one, and no entry in the other. -/
theorem lists_as_mappings_filled_up :
    ∃ (st st' : Storage) (s₀ s₀' s s' : Store) (outs outs' : List (Except Fault Data)),
      s₀.tree st.root = .mapping .plain [(.text "a", .list [.leaf (.int 1)])] ∧
      s₀'.tree st'.root =
        .mapping .plain [(.text "a", .mapping .plain [(.text "0", .leaf (.int 1))])] ∧
      st.Served s₀ [.set (.text "a[2]") (.leaf (.int 7)), .get (.text "a[1]")] outs s ∧
      st'.Served s₀' [.set (.text "a[2]") (.leaf (.int 7)), .get (.text "a[1]")] outs' s' ∧
      s.tree st.root = .mapping .plain
        [(.text "a", .list [.leaf (.int 1), .leaf .none, .leaf (.int 7)])] ∧
      s'.tree st'.root = .mapping .plain [(.text "a", .mapping .plain
        [(.text "0", .leaf (.int 1)), (.text "2", .leaf (.int 7))])] ∧
      List.Forall₂ (Agree Alike) outs outs' ∧ Alike (s.tree st.root) (s'.tree st'.root) := by
  have hd : Downgraded (.mapping .plain [(.text "a", .list [.leaf (.int 1)])])
      (.mapping .plain [(.text "a", .mapping .plain [(.text "0", .leaf (.int 1))])]) := by
    refine .mapping rfl fun i => ?_
    rcases i with _ | i
    · refine .replaced rfl fun j => ?_
      rcases j with _ | j <;> exact .leaf _
    · exact .leaf .none
  have run₀ : Served ⟨.ref ⟨1⟩, 0⟩ (Store.empty.load (.mapping .plain
      [(.text "a", .list [.leaf (.int 1)])])).1 [] [] _ := .start
  have run₀' : Served ⟨.ref ⟨1⟩, 0⟩ (Store.empty.load (.mapping .plain
      [(.text "a", .mapping .plain [(.text "0", .leaf (.int 1))])])).1 [] [] _ := .start
  have run := (run₀.set (v := .ofAtom (.int 7)) (.text "a[2]") rfl 0 (Grows.refl _)
    (by decide +kernel) (apart_atom _ _ _ _ _)).get (.text "a[1]") rfl 0
  have run' := (run₀'.set (v := .ofAtom (.int 7)) (.text "a[2]") rfl 0 (Grows.refl _)
    (by decide +kernel) (apart_atom _ _ _ _ _)).get (.text "a[1]") rfl 0
  refine ⟨_, _, _, _, _, _, _, _, by cbv, by cbv, run, run', by cbv, by cbv, ?_⟩
  refine lists_as_mappings (by cbv) (by decide +kernel) (by decide +kernel) (by cbv; exact hd)
    (by decide) run run' ?_ ?_
  all_goals
    simp only [List.nil_append, List.forall_mem_append, List.forall_mem_singleton]
    exact ⟨not_overflows (a := nothing) (by cbv), not_overflows (a := nothing) (by cbv)⟩

end Storage

end PathStore
