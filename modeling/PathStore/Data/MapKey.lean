import PathStore.Data.Atom
import PathStore.Text.Listed

/-!
# Keys and entries of mappings

A key is an atom or a tuple of keys.  A mapping is the list of its entries in the order in which
their keys came in: storing under a key that is present keeps the key and its place, a new key goes
last (`find?_insert_text`).
-/

namespace PathStore

inductive MapKey where
  | atom (a : Atom)
  | tuple (items : List MapKey)
  deriving Repr, Inhabited

namespace MapKey

/-- The key that a name is. -/
abbrev text (s : Text) : MapKey := atom (.text s)

mutual

def same : MapKey → MapKey → Bool
  | atom a, atom b => a.sameKey b
  | tuple xs, tuple ys => sameAll xs ys
  | _, _ => false

def sameAll : List MapKey → List MapKey → Bool
  | [], [] => true
  | x :: xs, y :: ys => same x y && sameAll xs ys
  | _, _ => false

end

mutual

/-- The key as it is shown in messages and lists, where `f` shows atoms and may fail. -/
def shownBy {ε : Type} (f : Atom → Except ε Text) : MapKey → Except ε Text
  | atom a => f a
  | tuple items => return Text.tuple (← shownAllBy f items)

def shownAllBy {ε : Type} (f : Atom → Except ε Text) : List MapKey → Except ε (List Text)
  | [] => .ok []
  | x :: xs => return (← shownBy f x) :: (← shownAllBy f xs)

end

mutual

/-- Whether a condition holds for all atoms of a key. -/
def allAtoms (p : Atom → Bool) : MapKey → Bool
  | atom a => p a
  | tuple items => allAtomsOf p items

def allAtomsOf (p : Atom → Bool) : List MapKey → Bool
  | [] => true
  | k :: ks => k.allAtoms p && allAtomsOf p ks

end

theorem same_text_iff {s : Text} {k : MapKey} : same (text s) k = true ↔ k = text s := by
  cases k with
  | atom a => simp [same, Atom.sameKey_text_iff]
  | tuple items => simp [same]

/-- Keys without those that repeat an earlier one. -/
def distinct (keys : List MapKey) : List MapKey :=
  keys.foldl (fun seen k => if seen.any (same k) then seen else seen ++ [k]) []

end MapKey

/-! ## Entries -/

/-- The entries of a mapping in the order of their keys' insertion. -/
abbrev Entries (α : Type) := List (MapKey × α)

namespace Entries

variable {α : Type}

def find? (k : MapKey) : Entries α → Option α
  | [] => none
  | e :: es => if k.same e.1 then some e.2 else find? k es

/-- The entries with `v` under `k`. -/
def insert (k : MapKey) (v : α) : Entries α → Entries α
  | [] => [(k, v)]
  | e :: es => if k.same e.1 then (e.1, v) :: es else e :: insert k v es

/-- The entries without the one under `k`. -/
def erase (k : MapKey) : Entries α → Entries α
  | [] => []
  | e :: es => if k.same e.1 then es else e :: erase k es

/-- The mapping that storing the pairs one after the other gives. -/
def ofList (pairs : List (MapKey × α)) : Entries α :=
  pairs.foldl (fun es p => insert p.1 p.2 es) []

/-- The items under the names `"0"`, `"1"`, …, counted from `start`. -/
def numbered (start : Nat) : List α → Entries α
  | [] => []
  | x :: xs => (.text (Text.decimal start), x) :: numbered (start + 1) xs

theorem find?_insert_text (s s' : Text) (v : α) (es : Entries α) :
    find? (.text s') (insert (.text s) v es) =
      if s = s' then some v else find? (.text s') es := by
  induction es with
  | nil => simp [insert, find?, MapKey.same_text_iff]
  | cons e es ih =>
    by_cases h : (MapKey.text s).same e.1 = true
    · have he : e.1 = .text s := MapKey.same_text_iff.1 h
      by_cases hs : s = s' <;> simp [insert, find?, he, MapKey.same_text_iff, hs]
    · by_cases h' : (MapKey.text s').same e.1 = true
      · have he : e.1 = .text s' := MapKey.same_text_iff.1 h'
        have hs : ¬ s = s' := by
          rintro rfl
          exact h h'
        simp [insert, find?, h, h', hs]
      · simp [insert, find?, h, h', ih]

end Entries

end PathStore
