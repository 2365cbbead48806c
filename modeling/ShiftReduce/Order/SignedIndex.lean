/-!
# Positions that may count from the end

A table written by hand may name a production by any integer. From zero on an integer is a
position as it is; a negative one counts from the end, so that `-1` is the last position.
-/

namespace ShiftReduce

/-- The position in a list of some length that an integer names, which counts from the end if it
is negative. The position may lie behind the list, but not in front of it. -/
def signedIndex? (length : Nat) (i : Int) : Option Nat :=
  if 0 ≤ i then some i.toNat
  else if i.natAbs ≤ length then some (length - i.natAbs)
  else none

@[simp] theorem signedIndex?_natCast (length n : Nat) : signedIndex? length n = some n := by
  simp [signedIndex?]

example : signedIndex? 3 (-1) = some 2 ∧ signedIndex? 1 (-2) = none := by decide

end ShiftReduce
