/-!
# Numbers of the format binary64

A number is its sign, its biased exponent and its fraction.  A finite one is `significand · 2 ^
exponent` up to sign, exactly.  `ofDecimal` gives the number nearest to `n · 10 ^ e`; of two
equally near ones it takes that with the even significand, and past the largest number it gives
infinity.
-/

namespace PathStore

/-- How many fractions there are, `2 ^ 52`. -/
abbrev Binary64.fractions : Nat := 0x10000000000000

structure Binary64 where
  negative : Bool
  biased : Fin 2048
  fraction : Fin Binary64.fractions
  deriving DecidableEq, Repr, Inhabited

namespace Binary64

/-- A value that is not a number, told apart from others by its mark. -/
def marked (mark : Nat) : Binary64 :=
  ⟨false, 2047, Fin.ofNat fractions (mark % (fractions - 1) + 1)⟩

def nan : Binary64 := marked 0

def infinity (negative : Bool) : Binary64 := ⟨negative, 2047, 0⟩

def zero (negative : Bool) : Binary64 := ⟨negative, 0, 0⟩

def isNaN (x : Binary64) : Bool :=
  x.biased == 2047 && x.fraction != 0

def isInfinite (x : Binary64) : Bool :=
  x.biased == 2047 && x.fraction == 0

def isFinite (x : Binary64) : Bool :=
  x.biased != 2047

def isZero (x : Binary64) : Bool :=
  x.biased == 0 && x.fraction == 0

/-- The integer that a finite number is a multiple of a power of two by. -/
def significand (x : Binary64) : Nat :=
  if x.biased = 0 then x.fraction else fractions + x.fraction

/-- The power of two that goes with the significand. -/
def exponent (x : Binary64) : Int :=
  max x.biased.val 1 - 1075

def toInt? (x : Binary64) : Option Int :=
  if !x.isFinite then none
  else
    let q := x.exponent
    let signed (n : Nat) : Int := if x.negative then -n else n
    if 0 ≤ q then some (signed (x.significand <<< q.toNat))
    else
      let d := 1 <<< (-q).toNat
      if x.significand % d = 0 then some (signed (x.significand / d)) else none

/-- The quotient rounded to the nearest integer, a half to the even one. -/
def roundDiv (num den : Nat) : Nat :=
  let q := num / den
  let r := 2 * (num % den)
  if r < den then q else if den < r then q + 1 else if q % 2 = 0 then q else q + 1

/-- The number with this significand, below `2 ^ 53`, at this power of two, from `-1074` on. -/
def ofSignificand (negative : Bool) (m : Nat) (q : Int) : Binary64 :=
  if m < fractions then ⟨negative, 0, Fin.ofNat fractions m⟩
  else
    let b := (q + 1075).toNat
    if b < 2047 then ⟨negative, Fin.ofNat 2048 b, Fin.ofNat fractions (m - fractions)⟩
    else infinity negative

/-- The number nearest to the positive fraction `num / den`. -/
def ofRatio (negative : Bool) (num den : Nat) : Binary64 :=
  let scaled (q : Int) : Nat × Nat :=
    if 0 ≤ q then (num, den <<< q.toNat) else (num <<< (-q).toNat, den)
  let guess : Int := max ((num.log2 : Int) - den.log2 - 53) (-1074)
  let fits (q : Int) : Bool := (scaled q).1 < 2 * fractions * (scaled q).2
  let q := if fits guess then guess else if fits (guess + 1) then guess + 1 else guess + 2
  let m := roundDiv (scaled q).1 (scaled q).2
  if m = 2 * fractions then ofSignificand negative fractions (q + 1) else ofSignificand negative m q

/-- The number nearest to `n · 10 ^ e`. -/
def ofDecimal (negative : Bool) (n : Nat) (e : Int) : Binary64 :=
  let size : Int := (Nat.toDigits 10 n).length + e
  if n = 0 ∨ size < -400 then zero negative
  else if 400 < size then infinity negative
  else if 0 ≤ e then ofRatio negative (n * Nat.pow 10 e.toNat) 1
  else ofRatio negative n (Nat.pow 10 (-e).toNat)

end Binary64

end PathStore
