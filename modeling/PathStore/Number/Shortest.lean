import PathStore.Number.Binary64
import PathStore.Text.Decimal

/-!
# Shortest decimal text of a number

`shortest` finds the fewest decimal digits that read back to a finite number, and among those the
nearest ones, a tie going to the even last digit.  `text` lays them out: positionally, with at least
one place after the point, for magnitudes from `0.0001` up to below `10 ^ 16`, and otherwise with an
exponent of two digits or more.
-/

namespace PathStore.Binary64

/-- Decimal digits, and the power of ten that the last digit stands at. -/
structure Digits where
  value : Nat
  exponent : Int
  deriving DecidableEq, Repr

/-- The magnitude of a finite number as a fraction. -/
def ratio (x : Binary64) : Nat × Nat :=
  if 0 ≤ x.exponent then (x.significand <<< x.exponent.toNat, 1)
  else (x.significand, 1 <<< (-x.exponent).toNat)

/-- The fraction divided by `10 ^ e`. -/
def shift (r : Nat × Nat) (e : Int) : Nat × Nat :=
  if 0 ≤ e then (r.1, r.2 * Nat.pow 10 e.toNat) else (r.1 * Nat.pow 10 (-e).toNat, r.2)

/-- The power of ten next above a positive fraction: `10 ^ (k - 1) ≤ r < 10 ^ k`. -/
def decade (r : Nat × Nat) : Int :=
  let guess : Int := (Nat.toDigits 10 r.1).length - (Nat.toDigits 10 r.2).length
  let s := shift r guess
  if s.1 < s.2 then guess else guess + 1

/-- Whether the digits read back to the magnitude of `x`. -/
def readsBack (x : Binary64) (d : Digits) : Bool :=
  ofDecimal x.negative d.value d.exponent == x

/-- The neighbour of `x` on the grid of multiples of `10 ^ e` that reads back to `x`, the nearer one
where both do. -/
def onGrid (x : Binary64) (e : Int) : Option Digits :=
  let s := shift x.ratio e
  let below : Digits := ⟨s.1 / s.2, e⟩
  let above : Digits := ⟨s.1 / s.2 + 1, e⟩
  let twice := 2 * (s.1 % s.2)
  let preferBelow := twice < s.2 ∨ twice = s.2 ∧ below.value % 2 = 0
  match readsBack x below, readsBack x above with
  | true, true => some (if preferBelow then below else above)
  | true, false => some below
  | false, true => some above
  | false, false => none

/-- The fewest digits that read back to a finite number other than zero; seventeen always do. -/
def shortest (x : Binary64) : Digits :=
  let k := decade x.ratio
  ((List.range 17).findSome? fun (n : Nat) => onGrid x (k - n - 1)).getD ⟨0, 0⟩

/-- Digits without zeros at the end, filled up on the right to at least `width`. -/
def trimZeros (ds : List Char) : List Char :=
  (ds.reverse.dropWhile (· == '0')).reverse

/-- An exponent with its sign and at least two digits. -/
def exponentText (e : Int) : List Char :=
  let ds := Text.digits e.natAbs
  (if e < 0 then '-' else '+') :: (List.replicate (2 - ds.length) '0' ++ ds)

/-- The digits `ds`, the first of which stands just after the point, times `10 ^ k`. -/
def layout (ds : List Char) (k : Int) : List Char :=
  if -4 < k ∧ k ≤ 0 then "0.".toList ++ List.replicate (-k).toNat '0' ++ ds
  else if 0 < k ∧ k ≤ 16 then
    let whole := ds.take k.toNat ++ List.replicate (k.toNat - ds.length) '0'
    let rest := ds.drop k.toNat
    whole ++ '.' :: (if rest.isEmpty then ['0'] else rest)
  else
    let mantissa := match ds with
      | [] => []
      | [d] => [d]
      | d :: rest => d :: '.' :: rest
    mantissa ++ 'e' :: exponentText (k - 1)

/-- The shortest text that reads back to the number. -/
def text (x : Binary64) : Text :=
  if x.isNaN then "nan"
  else
    let magnitude :=
      if x.isInfinite then "inf".toList
      else if x.isZero then "0.0".toList
      else
        let d := x.shortest
        let ds := Text.digits d.value
        layout (trimZeros ds) (ds.length + d.exponent)
    .ofChars (if x.negative then '-' :: magnitude else magnitude)

end PathStore.Binary64
