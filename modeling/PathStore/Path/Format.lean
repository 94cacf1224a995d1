import PathStore.Fault

/-!
# Writing integers and paths

Integers are written with a limited number of digits.  A position that has more of them is under no
name in a mapping and has no text in a message, and a path that holds one has no written form.  A
fault whose report would have to show such a path is `Fault.unwritable` in its place.
-/

namespace PathStore

def Text.ofInt (i : Int) : Except Fault Text :=
  if Text.isWritable i then .ok (Text.decimal i) else .error .unwritable

namespace Segment

/-- The name that the segment has in a mapping. -/
def name : Segment → Except Fault Text
  | key name => .ok name
  | index position => Text.ofInt position

/-- The text of the segment in messages. -/
def text : Segment → Except Fault Text
  | key name => .ok name
  | index position => (Text.ofInt position).map fun digits => "[" ++ digits ++ "]"

variable {seg : Segment}

theorem name_eq (seg : Segment) :
    seg.name = if seg.isWritable then .ok seg.spelling else .error .unwritable := by
  cases seg <;> rfl

theorem name_of_isWritable (h : seg.isWritable = true) : seg.name = .ok seg.spelling := by
  rw [name_eq, if_pos h]

theorem name_of_not_isWritable (h : seg.isWritable = false) : seg.name = .error .unwritable := by
  rw [name_eq, if_neg (by simp [h])]

/-- What is made of a name is made of the spelling. -/
theorem map_name_eq_ok {α : Type} {f : Text → α} {a : α} (h : seg.name.map f = .ok a) :
    seg.isWritable = true ∧ f seg.spelling = a := by
  cases hw : seg.isWritable with
  | true =>
    rw [name_of_isWritable hw] at h
    exact ⟨rfl, Except.ok.inj h⟩
  | false =>
    rw [name_of_not_isWritable hw] at h
    cases h

end Segment

/-- The written form of a path. -/
def Path.format (path : Path) : Except Fault Text :=
  if path.isWritable then .ok path.spelling else .error .unwritable

/-- A fault whose report shows a path. -/
def Fault.showing (path : Path) (fault : Fault) : Fault :=
  match path.format with
  | .ok _ => fault
  | .error fault => fault

section
variable {path : Path} {fault : Fault}

theorem Path.format_of_isWritable (h : path.isWritable = true) :
    path.format = .ok path.spelling :=
  if_pos h

theorem Fault.showing_eq (path : Path) (fault : Fault) :
    showing path fault = if path.isWritable then fault else unwritable := by
  unfold showing Path.format
  cases path.isWritable <;> rfl

theorem Fault.showing_of_isWritable (h : path.isWritable = true) : showing path fault = fault := by
  rw [showing_eq, if_pos h]

theorem Fault.showing_of_not_isWritable (h : path.isWritable = false) :
    showing path fault = unwritable := by
  rw [showing_eq, if_neg (by simp [h])]

theorem Fault.showing_eq_or (path : Path) (fault : Fault) :
    showing path fault = fault ∨ path.isWritable = false ∧ showing path fault = unwritable := by
  cases h : path.isWritable with
  | true => exact Or.inl (showing_of_isWritable h)
  | false => exact Or.inr ⟨rfl, showing_of_not_isWritable h⟩

end

end PathStore
