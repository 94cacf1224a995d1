import PathStore.Path.Segment

/-!
# Reading paths

A written path is cut into tokens: a run of code points other than `[`, `.` and `]`, or digits in
brackets.  Dots and brackets that belong to neither are skipped, so every text is a path, with one
exception: a run of more than `Text.maxDigits` digits is refused.  A run of ASCII digits is a
position, bare or in brackets, leading zeros allowed; every other run is a name.
-/

namespace PathStore

/-! ## Algorithm -/

/-- The code points that separate segments. -/
def isDelimiter (c : CodePoint) : Bool :=
  c == '[' || c == '.' || c == ']'

/-- A piece of a written path that stands for one segment. -/
inductive PathToken where
  /-- A run of code points that are not delimiters. -/
  | bare (run : Text)
  /-- The digits between two brackets. -/
  | bracketed (digits : Text)
  deriving DecidableEq, Repr

namespace PathToken

/-- The tokens of a text, from left to right. -/
def scan : Text → List PathToken
  | [] => []
  | c :: cs =>
    if isDelimiter c then
      let ds := cs.takeWhile CodePoint.isDigit
      if c = .char '[' ∧ ds ≠ [] ∧ (cs.dropWhile CodePoint.isDigit).head? = some (.char ']') then
        bracketed ds :: scan (cs.dropWhile CodePoint.isDigit).tail
      else scan cs
    else bare (c :: cs.takeWhile (!isDelimiter ·)) :: scan (cs.dropWhile (!isDelimiter ·))
  termination_by cs => cs.length
  decreasing_by
    all_goals
      have h₁ := (List.dropWhile_suffix (l := cs) CodePoint.isDigit).length_le
      have h₂ := (List.dropWhile_suffix (l := cs) (!isDelimiter ·)).length_le
      simp only [List.length_cons, List.length_tail]
      omega

/-- The code points of a token, without the brackets. -/
def run : PathToken → Text
  | bare cs => cs
  | bracketed ds => ds

end PathToken

namespace Path

/-- The segment that a run of code points stands for. -/
def readRun (cs : Text) : Except Text.TooManyDigits Segment :=
  if cs ≠ [] ∧ cs.all CodePoint.isDigit then (Text.readNumber cs.chars).map fun n => .index n
  else .ok (.key cs)

/-- The segments of a written path. -/
def parse (s : Text) : Except Text.TooManyDigits Path :=
  (PathToken.scan s).mapM fun t => readRun t.run

end Path

end PathStore
