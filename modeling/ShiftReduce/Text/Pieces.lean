/-!
# Pieces of a text between separators

The lines of a grammar text and the alternatives of a right-hand side are the pieces of a text
between the occurrences of one character. Empty pieces are kept, so a text with `n` separators
has `n + 1` pieces.
-/

namespace ShiftReduce.Text

/-- The pieces of a string between the occurrences of a character. -/
def pieces (separator : Char) (s : String) : List String :=
  (s.toList.splitOn separator).map String.ofList

/-- Joined by the separator, the pieces give the string back. -/
theorem intercalate_pieces (separator : Char) (s : String) :
    (String.singleton separator).intercalate (pieces separator s) = s := by
  apply String.toList_inj.1
  simp [String.toList_intercalate, pieces, Function.comp_def]

end ShiftReduce.Text
