import PathStore.Text.Quoted

/-!
# File trees

A file tree is a directory that holds nothing but the given files and the directories on the way to
them.  Paths are read part by part: empty parts and single dots are dropped, two dots go up.  A path
is too long as a whole or in one part of it; the length of a part counts only when the part is
looked up in a directory that is there.

The name of a file is a row of octets, and a path names it in UTF-8.  The halves of surrogate pairs
from U+DC80 to U+DCFF stand for the octets from 0x80 to 0xFF; other halves and the character of
number zero are in no name.
-/

namespace PathStore

/-! ## File paths -/

structure FilePath where
  /-- The slashes that the path starts with, if it does not start from the working directory. -/
  root : Text
  parts : List Text
  deriving DecidableEq, Repr

namespace FilePath

/-- The root of a path; two slashes are kept as they are, more than two are one. -/
def rootOf (t : Text) : Text :=
  match (t.takeWhile (· == CodePoint.char '/')).length with
  | 0 => []
  | 2 => "//"
  | _ => "/"

/-- The path that a text is. -/
def ofText (t : Text) : FilePath :=
  ⟨rootOf t, (t.splitOn (.char '/')).filter fun p => p ≠ [] ∧ p ≠ "."⟩

def text (p : FilePath) : Text :=
  if p.root = [] ∧ p.parts = [] then "." else p.root ++ Text.join "/" p.parts

/-- The part of a path that goes up. -/
def up : List UInt8 := [0x2E, 0x2E]

/-- The most octets that a path can have. -/
def maxLength : Nat := 4095

/-- The most octets that a part of a path can have. -/
def maxPartLength : Nat := 255

/-- The octets that a code point stands for in the name of a file. -/
def octetsOf? : CodePoint → Option (List UInt8)
  | .char c => if c = '\u0000' then none else some (String.utf8EncodeChar c)
  | .half place => if 0x480 ≤ place.val ∧ place.val < 0x500 then some [place.val.toUInt8] else none

/-- The name that a part of a path stands for. -/
def nameOf? (part : Text) : Option (List UInt8) :=
  (part.mapM octetsOf?).map List.flatten

end FilePath

/-! ## File trees -/

/-- What a path leads to. -/
inductive FileEntry where
  | file (octets : ByteArray)
  | directory
  | absent
  /-- The path, or a part of it, is longer than names can be. -/
  | tooLong

structure FileTree where
  /-- The files with the names that lead to them. -/
  files : List (List (List UInt8) × ByteArray)

namespace FileTree

/-- What is at a place inside the tree. -/
def entry (t : FileTree) (place : List (List UInt8)) : FileEntry :=
  match t.files.lookup place with
  | some octets => .file octets
  | none =>
    if place = [] ∨ t.files.any fun f => place.isPrefixOf f.1 then .directory else .absent

/-- Follows the parts of a path from a directory; `above` counts the steps that lead out of the
tree, where nothing but directories on the way is known. -/
def walk (t : FileTree) (above : Nat) (place : List (List UInt8)) :
    List (List UInt8) → FileEntry
  | [] => if above = 0 then t.entry place else .directory
  | name :: rest =>
    if name = FilePath.up then
      if place = [] then walk t (above + 1) [] rest else walk t above place.dropLast rest
    else if FilePath.maxPartLength < name.length then .tooLong
    else if above ≠ 0 then .absent
    else
      match t.entry (place ++ [name]), rest with
      | .file octets, [] => .file octets
      | .directory, rest => walk t 0 (place ++ [name]) rest
      | _, _ => .absent

def find (t : FileTree) (p : FilePath) : FileEntry :=
  match FilePath.nameOf? p.text, p.parts.mapM FilePath.nameOf? with
  | some whole, some names =>
    if FilePath.maxLength < whole.length then .tooLong
    else t.walk (if p.root = [] then 0 else 1) [] names
  | _, _ => .absent

end FileTree

end PathStore
