import PathStore.Data.Template
import PathStore.Effect
import PathStore.Store.Contents

/-!
# Building what a template describes

`build` makes the contents of a template in a store, from left to right.  A name that nothing is
kept under is a fault, and so is a key that can change.  An atom that a template writes out is told
apart from all others, unless there is only one like it.
-/

namespace PathStore

/-- Values kept under names; the first of a name counts. -/
abbrev Names := List (Text × Value)

namespace Store

/-- The key that a value can serve as. -/
def key (s : Store) (v : Value) : Except Fault MapKey :=
  (s.tree v).toKey.mapError .notAKey

/-- An atom that is made anew; one that is not a number gets a mark, by which it is told apart as a
key, too. -/
def anew (s : Store) (a : Atom) : Store × Value :=
  if a.isUnique then (s, .ofAtom a)
  else
    let mark := s.marks + 1
    let marked : Atom := match a with
      | .float x => .float (if x.isNaN then .marked mark else x)
      | a => a
    ({ s with marks := mark }, .atom marked mark)

/-- The effect of adding a cell. -/
def give (s : Store) (c : Cell) : Effect Value :=
  let (s, v) := s.alloc c
  .done s v

mutual

def build (names : Names) (s : Store) : Template → Effect Value
  | .atom a =>
    let (s, v) := s.anew a
    .done s v
  | .name x =>
    match names.lookup x with
    | some v => .done s v
    | none => .fail s (.unbound x)
  | .mapping kind ps =>
    (buildPairs names s ps).andThen fun s es => s.give (.mapping kind (Entries.ofList es))
  | .list ts => (buildAll names s ts).andThen fun s vs => s.give (.list vs)
  | .tuple ts => (buildAll names s ts).andThen fun s vs => s.give (.tuple vs)
  | .set ts => (buildKeys names s ts).andThen fun s ks => s.give (.set (MapKey.distinct ks))

def buildAll (names : Names) (s : Store) : List Template → Effect (List Value)
  | [] => .done s []
  | t :: ts =>
    (build names s t).andThen fun s v =>
      (buildAll names s ts).andThen fun s vs => .done s (v :: vs)

def buildKeys (names : Names) (s : Store) : List Template → Effect (List MapKey)
  | [] => .done s []
  | t :: ts =>
    (build names s t).andThen fun s v =>
      match s.key v with
      | .error fault => .fail s fault
      | .ok k => (buildKeys names s ts).andThen fun s ks => .done s (k :: ks)

def buildPairs (names : Names) (s : Store) :
    List (Template × Template) → Effect (List (MapKey × Value))
  | [] => .done s []
  | (t, u) :: ps =>
    (build names s t).andThen fun s k =>
      (build names s u).andThen fun s v =>
        match s.key k with
        | .error fault => .fail s fault
        | .ok k => (buildPairs names s ps).andThen fun s es => .done s ((k, v) :: es)

end

end Store

end PathStore
