import PathStore.Store.Read

/-!
# Values in messages

`shown` gives the text of a value as it stands in messages.  A storage is shown by the keys of its
root and a view by its path and the value there, so showing a value reads the store.  It fails where
a view cannot be read, a storage has no keys or an integer cannot be written.  A container that is
met while it is shown is given by dots; a view can also be met while it is shown with no container
in between, and then there is no end to its text (`Fault.tooDeep`).
-/

namespace PathStore

/-- A cell that stands inside itself, as it is shown there. -/
def Cell.ellipsis : Cell → Text
  | mapping _ _ => "\x7b...\x7d"
  | list _ => "[...]"
  | tuple _ => "(...)"
  | set _ => "set(...)"

namespace Store

def keys (s : Store) (v : Value) : Except Fault (List MapKey) :=
  match s.cell? v with
  | some (.mapping _ es) => .ok (es.map Prod.fst)
  | _ => .error (.noAttribute (s.kindName v) "keys")

/-- A value as it is shown inside the cells `around` it, down to a depth. -/
def shownTo (s : Store) : Nat → List Ref → Value → Except Fault Text
  | 0, _, _ => .error .tooDeep
  | depth + 1, around, v =>
    let inside (rs : List Ref) (w : Value) : Except Fault Text := shownTo s depth rs w
    let key (rs : List Ref) (k : MapKey) : Except Fault Text :=
      k.shownBy fun a => inside rs (.ofAtom a)
    match v with
    | .atom (.object .storage n) _ => do
      let ks ← s.keys (s.root n)
      return "KeyValueStorage(keys=" ++ Text.list (← ks.mapM (key around)) ++ ")"
    | .atom (.object .view n) _ => do
      let view := s.view n
      let value ← match s.read view.root view.path with
        | .ok value => .ok (some value)
        | .error (.keyNotFound _ _) => .ok none
        | .error fault => .error fault
      let path ← view.path.format
      let text ← value.elim (.ok (Text.quote "<unreadable>")) (inside around)
      return "AccessorView(path=" ++ Text.quote path ++ ", value=" ++ text ++ ")"
    | .atom a _ => a.shown
    | .ref r =>
      match s.get? r with
      | none => .ok "None"
      | some c =>
        let rs := r :: around
        if around.contains r then .ok c.ellipsis
        else
          match c with
          | .mapping _ es =>
            return Text.mapping (← es.mapM fun e => return (← key rs e.1, ← inside rs e.2))
          | .list xs => return Text.list (← xs.mapM (inside rs))
          | .tuple xs => return Text.tuple (← xs.mapM (inside rs))
          | .set ks => return Text.set (← ks.mapM (key rs))

/-- A value as it is shown in messages.  Every cell is gone into once, and between two of them every
object. -/
def shown (s : Store) (v : Value) : Except Fault Text :=
  s.shownTo ((s.size + 1) * (s.extent + 1)) [] v

end Store

end PathStore
