/-!
# Replacing characters in turn

A text is prepared for another notation by going over it once for each character that this
notation reserves. What one replacement puts in is part of the text that the next one goes over.
-/

namespace ShiftReduce.Text

/-- The text with every occurrence of one character replaced. -/
def replaceChar (c : Char) (replacement : String) (s : List Char) : List Char :=
  s.flatMap fun d => if d = c then replacement.toList else [d]

/-- The text with the characters of a table replaced one after the other. -/
def replaceInTurn (table : List (Char × String)) (s : String) : String :=
  String.ofList (table.foldl (fun s (c, replacement) => replaceChar c replacement s) s.toList)

end ShiftReduce.Text
