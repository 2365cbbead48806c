import ShiftReduce.Text.AsciiFormTable

/-!
# ASCII forms

The ASCII form of a character is the ASCII text that it stands for, with capitals made small. An
ASCII character stands for itself; most others have no ASCII form.
-/

namespace ShiftReduce.Text

/-- Whether the character is an ASCII character. -/
def isAscii (c : Char) : Bool :=
  decide (c.toNat < 0x80)

/-- The ASCII form of a character, if it has one. -/
def asciiForm? (c : Char) : Option (List Char) :=
  let code := c.toNat
  if isAscii c then some [c.toLower]
  else if inRanges ignoredRanges code then some []
  else
    match asciiRuns.find? fun (first, last, _) => first ≤ code ∧ code ≤ last with
    | some (first, _, target) => some [Char.ofNat (target.toNat + (code - first))]
    | none => (asciiWords.lookup code).map String.toList

example : "Ｂ\u00ad𝓲ﬆé".toList.map asciiForm?
    = [some ['b'], some [], some ['i'], some ['s', 't'], none] := by decide +kernel

end ShiftReduce.Text
