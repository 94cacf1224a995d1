import PathStore.Text.CodePoint

/-!
# Decimal text of integers

`digits` writes a natural number without leading zeros and `number` reads a run of ASCII digits,
leading zeros included; reading undoes writing (`number_digits`).  `signed` puts a minus sign
before a negative integer.
-/

namespace PathStore.Text

/-! ## Algorithm -/

/-- The decimal digits of `n`, without leading zeros. -/
def digits (n : Nat) : List Char :=
  Nat.toDigits 10 n

/-- The number that a run of decimal digits stands for. -/
def number (ds : List Char) : Nat :=
  Nat.ofDigitChars 10 ds 0

/-- The most digits that an integer is read or written with. -/
def maxDigits : Nat := 4300

/-- A run of digits is too long to be read. -/
structure TooManyDigits where
  count : Nat
  deriving DecidableEq, Repr

/-- `number`, unless there are too many digits. -/
def readNumber (ds : List Char) : Except TooManyDigits Nat :=
  if maxDigits < ds.length then .error ⟨ds.length⟩ else .ok (number ds)

/-- Whether an integer has few enough digits to be written. -/
def isWritable (i : Int) : Bool :=
  (digits i.natAbs).length ≤ maxDigits

/-- Decimal text with a minus sign before negative numbers. -/
def signed (i : Int) : List Char :=
  if i < 0 then '-' :: digits i.natAbs else digits i.natAbs

/-- `signed` as a text. -/
def decimal (i : Int) : Text :=
  ofChars (signed i)

/-- What is said about too many digits, with more about them in the middle. -/
def digitLimitMessage (about : Text) : Text :=
  "Exceeds the limit (" ++ decimal maxDigits ++ " digits) for integer string conversion" ++ about ++
    "; use sys.set_int_max_str_digits() to increase the limit"

/-- What is said about a run of digits that is too long. -/
def TooManyDigits.message (e : TooManyDigits) : Text :=
  digitLimitMessage (": value has " ++ decimal e.count ++ " digits")

/-! ## Lemmas -/

theorem number_digits (n : Nat) : number (digits n) = n :=
  Nat.ofDigitChars_toDigits (by decide) (by decide)

end PathStore.Text
