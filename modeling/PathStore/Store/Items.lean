import PathStore.Effect
import PathStore.Store.Build

/-!
# Counting and finding items

A value that holds items can be asked how many they are (`count`) and whether something is among
them (`has`): a mapping for its keys, a list, tuple or set for its items, a text or byte string for
its parts.  A storage answers for its root.  Asking a value that holds no items is a fault, and so
is looking for something that cannot be among the items.
-/

namespace PathStore

/-- Whether a run of items occurs in another. -/
def occursIn {α : Type} [BEq α] (xs : List α) : List α → Bool
  | [] => xs.isEmpty
  | y :: ys => xs.isPrefixOf (y :: ys) || occursIn xs ys

namespace Cell

def count : Cell → Nat
  | mapping _ es => es.length
  | list xs => xs.length
  | tuple xs => xs.length
  | set ks => ks.length

end Cell

namespace Store

/-- The number of items of a value, through as many storages as are counted. -/
def countTo (s : Store) : Nat → Value → Except Fault Nat
  | _, .ref r => .ok (((s.get? r).map Cell.count).getD 0)
  | depth + 1, .atom (.object .storage n) _ => countTo s depth (s.root n)
  | _, .atom (.text t) _ => .ok t.length
  | _, .atom (.bytes octets) _ => .ok octets.length
  | _, .atom a _ => .error (.noLength a.kindName)

def count (s : Store) (v : Value) : Except Fault Nat :=
  s.countTo (s.storages.size + 1) v

/-- Whether a value counts as false where a truth value is asked for. -/
def isFalsy (s : Store) : Value → Except Fault Bool
  | .atom (.object .storage n) _ => (s.count (s.root n)).map (· == 0)
  | .atom a _ => .ok a.isFalsy
  | .ref r => (s.count (.ref r)).map (· == 0)

/-- Whether a byte or a run of bytes occurs in a byte string. -/
def octetsHave (s : Store) (octets : List UInt8) (x : Value) : Except Fault Bool :=
  let byte (i : Int) : Except Fault Bool :=
    if 0 ≤ i ∧ i < 256 then .ok (octets.any fun b => (b.toNat : Int) == i) else .error .notByte
  match x with
  | .atom (.bytes part) _ => .ok (occursIn part octets)
  | .atom (.int i) _ => byte i
  | .atom (.bool b) _ => byte (if b then 1 else 0)
  | x => .error (.notBytes (s.kindName x))

/-- Whether something is among the items of a cell.  A set that a set is looked for in does not have
it. -/
def cellHas (s : Store) (x : Value) : Cell → Except Fault Bool
  | .mapping _ es => (s.key x).map fun k => (es.find? k).isSome
  | .list xs => .ok (xs.any fun v => s.same v x)
  | .tuple xs => .ok (xs.any fun v => s.same v x)
  | .set ks =>
    match s.cell? x with
    | some (.set _) => .ok false
    | _ => (s.key x).map fun k => ks.any k.same

/-- Whether something is among the items of a value, through as many storages as are counted. -/
def hasTo (s : Store) (x : Value) : Nat → Value → Except Fault Bool
  | _, .ref r =>
    match s.get? r with
    | some c => s.cellHas x c
    | none => .ok false
  | depth + 1, .atom (.object .storage n) _ => hasTo s x depth (s.root n)
  | _, .atom (.object .container n) _ =>
    (s.key x).map fun
      | .atom (.text key) => (s.registry n).contains key
      | _ => false
  | _, .atom (.text t) _ =>
    match x with
    | .atom (.text part) _ => .ok (occursIn part t)
    | x => .error (.notText (s.kindName x))
  | _, .atom (.bytes octets) _ => s.octetsHave octets x
  | _, .atom a _ => .error (.notSearchable a.kindName)

/-- Whether something is among the items of a value. -/
def has (s : Store) (v x : Value) : Except Fault Bool :=
  s.hasTo x (s.storages.size + 1) v

end Store

end PathStore
