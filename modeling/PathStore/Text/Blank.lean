import PathStore.Text.CodePoint

/-!
# Blank characters and trimming

`isBlank` is the property White_Space of Unicode together with the four separators U+001C to
U+001F.  `trim` removes the blank code points at both ends, and only there.
-/

namespace PathStore.Text

/-! ## Algorithm -/

/-- Horizontal and vertical spaces, line ends and separators, in ASCII and beyond. -/
def isBlank (c : CodePoint) : Bool :=
  let n := c.code
  (0x9 ≤ n && n ≤ 0xD) || (0x1C ≤ n && n ≤ 0x20) || n == 0x85 || n == 0xA0 || n == 0x1680 ||
    (0x2000 ≤ n && n ≤ 0x200A) || n == 0x2028 || n == 0x2029 || n == 0x202F || n == 0x205F ||
    n == 0x3000

/-- A text without the blank code points at the end. -/
def trimEnd (t : Text) : Text :=
  (t.reverse.dropWhile isBlank).reverse

/-- A text without the blank code points at both ends. -/
def trim (t : Text) : Text :=
  trimEnd (t.dropWhile isBlank)

/-! ## Lemmas -/

theorem dropWhile_isBlank_eq_self {t : Text} (h : ∀ c ∈ t, isBlank c = false) :
    t.dropWhile isBlank = t := by
  cases t with
  | nil => rfl
  | cons c t => exact List.dropWhile_cons_of_neg (by simp [h c List.mem_cons_self])

/-- A text without blank code points stays as it is. -/
theorem trim_eq_self {t : Text} (h : ∀ c ∈ t, isBlank c = false) : trim t = t := by
  rw [trim, trimEnd, dropWhile_isBlank_eq_self h,
    dropWhile_isBlank_eq_self fun c hc => h c (List.mem_reverse.1 hc), List.reverse_reverse]

end PathStore.Text
