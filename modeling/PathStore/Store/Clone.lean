import PathStore.Effect

/-!
# Copies that share nothing

`clone` copies a value so that no cell that can change belongs to both.  Mappings become plain ones
and lists are copied item by item, a container that occurs twice being copied twice.  Everything
else is copied as a whole by `duplicate`, which keeps what is shared inside, keeps the class of
mappings, gives a tuple back as it is when none of its items had to be copied, and copies storages,
views and registries together with what they hold.  States and listeners cannot be copied.  Cells
stand inside one another no deeper than the store has cells, and that between any two objects, which
bounds how deep the copying goes; what stands inside itself has no copy (`Fault.tooDeep`).
-/

namespace PathStore.Store

/-- Carries a state through a list from left to right, up to a fault. -/
def thread {σ α β : Type} (f : σ → α → Except Fault (σ × β)) (s : σ) :
    List α → Except Fault (σ × List β)
  | [] => .ok (s, [])
  | x :: xs => do
    let (s, y) ← f s x
    let (s, ys) ← thread f s xs
    return (s, y :: ys)

/-- `thread` on the second parts of pairs. -/
def threadPairs {σ κ α β : Type} (f : σ → α → Except Fault (σ × β)) (s : σ) (ps : List (κ × α)) :
    Except Fault (σ × List (κ × β)) :=
  thread (fun s p => do let (s, v) ← f s p.2; return (s, (p.1, v))) s ps

/-! ## Copies that keep sharing -/

/-- A store while values are copied in it. -/
structure Copying where
  store : Store
  /-- The copies made so far. -/
  copies : List (Value × Value)

/-- What copies a value. -/
abbrev Copier := Copying → Value → Except Fault (Copying × Value)

namespace Copying

def start (s : Store) : Copying := ⟨s, []⟩

/-- The copy of a value, if there is one. -/
def find? (c : Copying) (v : Value) : Option Value :=
  c.copies.lookup v

/-- Adds a cell as the copy of a value. -/
def add (c : Copying) (v : Value) (cell : Cell) : Copying × Value :=
  let (s, w) := c.store.alloc cell
  (⟨s, (v, w) :: c.copies⟩, w)

/-- Copies a storage, whose root `f` copies once the copy of the storage is known. -/
def addStorage (f : Copier) (c : Copying) (n : Nat) : Except Fault (Copying × Value) := do
  let copy := c.store.storages.size
  let w : Value := .object .storage copy
  let s := c.store
  let (c, root) ← f
    ⟨{ s with storages := s.storages.push .none }, (.object .storage n, w) :: c.copies⟩ (s.root n)
  let s := c.store
  return ({ c with store := { s with storages := s.storages.setIfInBounds copy root } }, w)

/-- Copies a view, whose root `f` copies once the copy of the view is known. -/
def addView (f : Copier) (c : Copying) (n : Nat) : Except Fault (Copying × Value) := do
  let copy := c.store.views.size
  let view := c.store.view n
  let (s, w) := c.store.addView view
  let (c, root) ← f ⟨s, (.object .view n, w) :: c.copies⟩ view.root
  let s := c.store
  return ({ c with store := { s with views := s.views.setIfInBounds copy ⟨root, view.path⟩ } }, w)

/-- Copies a registry, whose ready services `f` copies once the copy of the registry is known. -/
def addRegistry (f : Copier) (c : Copying) (n : Nat) : Except Fault (Copying × Value) := do
  let copy := c.store.registries.size
  let r := c.store.registry n
  let (s, w) := c.store.addRegistry r
  let (c, ready) ← threadPairs f ⟨s, (.object .container n, w) :: c.copies⟩ r.ready
  return ({ c with store := c.store.modifyRegistry copy fun _ => ⟨ready, r.factories⟩ }, w)

/-- Copies what an atom refers to; one that refers to nothing is its own copy. -/
def copyAtom (f : Copier) (c : Copying) (copy : Nat) : Atom → Except Fault (Copying × Value)
  | .object .storage n => c.addStorage f n
  | .object .view n => c.addView f n
  | .object .container n => c.addRegistry f n
  | .object .state _ => .error .notCopyable
  | .object (.listener _) _ => .error .notCopyable
  | a => .ok (c, .atom a copy)

mutual

/-- Copies a key; only what its atoms refer to is not the same afterwards. -/
def copyKey (f : Copier) (c : Copying) : MapKey → Except Fault (Copying × MapKey)
  | .atom a => do
    match ← f c (.ofAtom a) with
    | (c, .atom b _) => return (c, .atom b)
    | (c, .ref _) => return (c, .atom a)
  | .tuple ks => do
    let (c, ks) ← copyKeys f c ks
    return (c, .tuple ks)

def copyKeys (f : Copier) (c : Copying) : List MapKey → Except Fault (Copying × List MapKey)
  | [] => .ok (c, [])
  | k :: ks => do
    let (c, k) ← copyKey f c k
    let (c, ks) ← copyKeys f c ks
    return (c, k :: ks)

end

/-- Copies the entries of a mapping, keys and values. -/
def copyEntries (f : Copier) (c : Copying) (es : Entries Value) :
    Except Fault (Copying × Entries Value) :=
  thread (fun c e => do
    let (c, k) ← c.copyKey f e.1
    let (c, v) ← f c e.2
    return (c, (k, v))) c es

end Copying

/-- Copies a value down to a depth; each cell and object is copied once. -/
def duplicate : Nat → Copier
  | 0, _, _ => .error .tooDeep
  | depth + 1, c, v =>
    match c.find? v with
    | some w => .ok (c, w)
    | none =>
      match v with
      | .atom a copy => c.copyAtom (duplicate depth) copy a
      | .ref r =>
        match c.store.get? r with
        | some (.mapping kind es) => do
          let (c, es) ← c.copyEntries (duplicate depth) es
          return c.add v (.mapping kind es)
        | some (.list xs) => do
          let (c, xs) ← thread (duplicate depth) c xs
          return c.add v (.list xs)
        | some (.tuple xs) => do
          let (c, ys) ← thread (duplicate depth) c xs
          return if ys = xs then (c, v) else c.add v (.tuple ys)
        | some (.set ks) => do
          let (c, ks) ← c.copyKeys (duplicate depth) ks
          return c.add v (.set ks)
        | none => .ok (c, v)

/-! ## Copies for snapshots -/

/-- Copies a value down to a depth; each occurrence of a mapping or list is copied. -/
def cloneTo : Nat → Store → Value → Except Fault (Store × Value)
  | 0, _, _ => .error .tooDeep
  | depth + 1, s, v =>
    match s.cell? v with
    | some (.mapping _ es) => do
      let (s, es) ← threadPairs (cloneTo depth) s es
      return s.alloc (.mapping .plain es)
    | some (.list xs) => do
      let (s, xs) ← thread (cloneTo depth) s xs
      return s.alloc (.list xs)
    | _ => do
      let (c, w) ← duplicate (depth + 1) (.start s) v
      return (c.store, w)

/-- How many cells and objects can stand inside one another. -/
def copyDepth (s : Store) : Nat :=
  (s.size + 1) * (s.extent + 1)

/-- A copy of a value that shares with it nothing that can change. -/
def clone (s : Store) (v : Value) : Except Fault (Store × Value) :=
  cloneTo s.copyDepth s v

end PathStore.Store
