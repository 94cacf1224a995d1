import PathStore.Number.Shortest
import PathStore.Path.Format

/-!
# Atoms

The indivisible values: nothing, truth values, integers, numbers of the format binary64, texts,
byte strings, and references to the library's own objects, which are told apart by kind and number.
`Atom.sameKey` is the equality that values are compared by: numbers of all three numeric types are
compared by what they stand for, and a value that is not a number equals only itself.  Of some atoms
there is only one however often they are made (`Atom.isUnique`).
-/

namespace PathStore

/-- What an atom that refers to one of the library's objects refers to. -/
inductive ObjectKind where
  | storage
  | view
  | state
  | container
  | listener (name : Text)
  | function
  deriving DecidableEq, Repr

inductive Atom where
  | none
  | bool (b : Bool)
  | int (i : Int)
  | float (x : Binary64)
  | text (s : Text)
  | bytes (octets : List UInt8)
  | object (kind : ObjectKind) (number : Nat)
  deriving DecidableEq, Repr, Inhabited

namespace ObjectKind

def name : ObjectKind → String
  | storage => "KeyValueStorage"
  | view => "AccessorView"
  | state => "StorageState"
  | container => "ServiceContainer"
  | listener _ => "Listener"
  | function => "function"

/-- How an object is shown that has no text of its own. -/
def label : ObjectKind → Text
  | listener name => "<" ++ name ++ ">"
  | kind => "<" ++ kind.name ++ ">"

end ObjectKind

namespace Atom

def kindName : Atom → String
  | none => "NoneType"
  | bool _ => "bool"
  | int _ => "int"
  | float _ => "float"
  | text _ => "str"
  | bytes _ => "bytes"
  | object kind _ => kind.name

def isObject : Atom → Bool
  | object _ _ => true
  | _ => false

/-- Whether there is only one such atom: nothing, a truth value, a small integer, an object, and a
text or byte string without parts or with one small part. -/
def isUnique : Atom → Bool
  | none => true
  | bool _ => true
  | int i => -5 ≤ i && i ≤ 256
  | float _ => false
  | text [] => true
  | text [c] => c.code < 256
  | text _ => false
  | bytes octets => octets.length ≤ 1
  | object _ _ => true

/-- The integer that a numeric atom is equal to, if it is one. -/
def toInt? : Atom → Option Int
  | bool b => some (if b then 1 else 0)
  | int i => some i
  | float x => x.toInt?
  | _ => Option.none

/-- One representative for all numeric atoms of equal value. -/
def keyForm (a : Atom) : Atom :=
  match a.toInt? with
  | some i => int i
  | Option.none => a

/-- Whether two atoms are equal, and so the same key of a mapping. -/
def sameKey (a b : Atom) : Bool :=
  a.keyForm == b.keyForm

/-- Whether an atom counts as false where a truth value is asked for. -/
def isFalsy : Atom → Bool
  | none => true
  | bool b => !b
  | int i => i == 0
  | float x => x.isZero
  | text s => s.isEmpty
  | bytes octets => octets.isEmpty
  | object _ _ => false

/-- The atom as it is shown in messages and lists. -/
def shown : Atom → Except Fault Text
  | none => .ok "None"
  | bool true => .ok "True"
  | bool false => .ok "False"
  | int i => Text.ofInt i
  | float x => .ok x.text
  | text s => .ok (Text.quote s)
  | bytes octets => .ok (Text.quoteBytes octets)
  | object kind _ => .ok kind.label

@[simp] theorem keyForm_text (s : Text) : (text s).keyForm = text s := rfl

theorem keyForm_eq_text {a : Atom} {s : Text} (h : a.keyForm = text s) : a = text s := by
  unfold keyForm at h
  split at h
  · simp at h
  · exact h

/-- A text is the same key as itself only. -/
theorem sameKey_text_iff {s : Text} {a : Atom} : sameKey (text s) a = true ↔ a = text s := by
  constructor
  · intro h
    simp only [sameKey, keyForm_text, beq_iff_eq] at h
    exact keyForm_eq_text h.symm
  · rintro rfl
    simp [sameKey]

end Atom

end PathStore
