/-!
# Hexadecimal text

`hex` writes a number in lower-case hexadecimal digits, filled up to a width, and `hexNumber?` reads
exactly that many digits of either case.
-/

namespace PathStore.Text

/-- `n` in lower-case hexadecimal, filled up with zeros to `width` digits. -/
def hex (width n : Nat) : List Char :=
  let ds := Nat.toDigits 16 n
  List.replicate (width - ds.length) '0' ++ ds

/-- The value of a hexadecimal digit. -/
def hexDigit? (c : Char) : Option Nat :=
  if c.isDigit then some (c.toNat - 48)
  else if 'a' ≤ c ∧ c ≤ 'f' then some (c.toNat - 87)
  else if 'A' ≤ c ∧ c ≤ 'F' then some (c.toNat - 55)
  else none

/-- The number that exactly `width` hexadecimal digits at the start stand for. -/
def hexNumber? (width : Nat) (cs : List Char) : Option Nat :=
  match (cs.take width).mapM hexDigit? with
  | some ds => if ds.length = width then some (ds.foldl (fun n d => 16 * n + d) 0) else none
  | none => none

end PathStore.Text
