/-!
# Settings of a session

What a user may choose: how the start symbol is marked when a fresh one is made from it, and how
many steps a run may take. The marker is not empty, since otherwise a symbol would never become
fresh by it.
-/

namespace ShiftReduce

theorem Settings.apostrophe_ne : "'" ≠ "" := by decide

/-- The choices that a session leaves to its user. -/
structure Settings where
  /-- What is appended to the start symbol until the result is fresh. -/
  primeMarker : String := "'"
  /-- There is something to append. -/
  primeMarker_ne : primeMarker ≠ "" := by exact Settings.apostrophe_ne
  /-- The greatest number of steps of a run; none if it is zero or less. -/
  maxSteps : Int := 1000
deriving DecidableEq

end ShiftReduce
