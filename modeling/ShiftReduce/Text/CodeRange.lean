/-!
# Classes of characters as ranges of code points

A class of characters beyond ASCII is a list of closed ranges of code points, ascending and
apart. `inRanges` is the look-up that every such table shares.
-/

namespace ShiftReduce.Text

/-- A closed range of code points, by its two ends. -/
abbrev CodeRange := Nat × Nat

/-- Whether the code point lies in one of the ranges. -/
def inRanges (ranges : List CodeRange) (code : Nat) : Bool :=
  ranges.any fun r => decide (r.1 ≤ code) && decide (code ≤ r.2)

theorem inRanges_iff {ranges : List CodeRange} {code : Nat} :
    inRanges ranges code = true ↔ ∃ r ∈ ranges, r.1 ≤ code ∧ code ≤ r.2 := by
  simp [inRanges]

/-- Ranges that ascend and do not touch: the one way to write a class down. -/
def apart : List CodeRange → Bool
  | [] => true
  | [r] => decide (r.1 ≤ r.2)
  | r :: s :: rest => decide (r.1 ≤ r.2) && decide (r.2 + 1 < s.1) && apart (s :: rest)

end ShiftReduce.Text
