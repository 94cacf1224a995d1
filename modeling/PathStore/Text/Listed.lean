import PathStore.Text.CodePoint

/-!
# Lists of texts

Items stand between brackets of their kind, separated by commas.  A tuple of one item has a comma
after it, and a set without items is written by its name, so that neither reads as something else.
-/

namespace PathStore.Text

def commas (items : List Text) : Text :=
  join ", " items

def list (items : List Text) : Text :=
  "[" ++ commas items ++ "]"

def tuple : List Text → Text
  | [item] => "(" ++ item ++ ",)"
  | items => "(" ++ commas items ++ ")"

def set : List Text → Text
  | [] => "set()"
  | items => "\x7b" ++ commas items ++ "\x7d"

def mapping (entries : List (Text × Text)) : Text :=
  "\x7b" ++ commas (entries.map fun e => e.1 ++ ": " ++ e.2) ++ "\x7d"

end PathStore.Text
