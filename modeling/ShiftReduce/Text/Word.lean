import ShiftReduce.Text.WordTable

/-!
# Word characters

The characters that a left-hand side of a grammar text may hold after its first one, next to the
apostrophe: letters, digits and other numbers of any script, and the underscore.
-/

namespace ShiftReduce.Text

/-- Whether the character is a letter, a number or the underscore. -/
def isWord (c : Char) : Bool :=
  c.isAlphanum || c == '_' || (decide (0x80 ≤ c.toNat) && inRanges letterNumberRanges c.toNat)

/-- Every letter and digit of ASCII is a word character. -/
theorem isWord_of_isAlphanum {c : Char} (h : c.isAlphanum = true) : isWord c = true := by
  simp [isWord, h]

example : isWord '½' = true ∧ isWord '‿' = false ∧ isWord '-' = false := by decide +kernel

/-- Whether the character may begin a left-hand side in a grammar text: an ASCII letter or the
underscore. -/
def isNameStart (c : Char) : Bool :=
  c.isAlpha || c == '_'

/-- Whether the character may continue a left-hand side in a grammar text. -/
def isNameRest (c : Char) : Bool :=
  isWord c || c == '\''

end ShiftReduce.Text
