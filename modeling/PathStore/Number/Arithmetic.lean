import PathStore.Number.Binary64

/-!
# Sums and products

`add` and `mul` give the number of the format binary64 that is nearest to the exact sum or product
of two numbers that are not negative.  Beyond the largest number both give infinity.
-/

namespace PathStore.Binary64

/-- The number nearest to `m · 2 ^ q`. -/
def ofScaled (m : Nat) (q : Int) : Binary64 :=
  if m = 0 then zero false
  else if 0 ≤ q then ofRatio false (m <<< q.toNat) 1
  else ofRatio false m (1 <<< (-q).toNat)

def ofNat (n : Nat) : Binary64 :=
  ofScaled n 0

/-- The sum of two numbers that are not negative. -/
def add (x y : Binary64) : Binary64 :=
  if x.isFinite && y.isFinite then
    let q := min x.exponent y.exponent
    let raised (z : Binary64) : Nat := z.significand <<< (z.exponent - q).toNat
    ofScaled (raised x + raised y) q
  else infinity false

/-- The product of two numbers that are not negative. -/
def mul (x y : Binary64) : Binary64 :=
  if x.isFinite && y.isFinite then
    ofScaled (x.significand * y.significand) (x.exponent + y.exponent)
  else infinity false

/-- The number with the other sign. -/
def opposite (x : Binary64) : Binary64 :=
  { x with negative := !x.negative }

end PathStore.Binary64
