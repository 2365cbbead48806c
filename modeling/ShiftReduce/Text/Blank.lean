import ShiftReduce.Text.CodeRange

/-!
# Blank characters

Blanks separate symbols and are dropped at the ends of a line or of a left-hand side. They are
the white space of Unicode together with the four information separators U+001C to U+001F;
the zero-width characters U+200B and U+FEFF are no blanks.
-/

namespace ShiftReduce.Text

/-- The blank code points. -/
def blankRanges : List CodeRange :=
  [(0x09, 0x0D), (0x1C, 0x20), (0x85, 0x85), (0xA0, 0xA0), (0x1680, 0x1680), (0x2000, 0x200A),
   (0x2028, 0x2029), (0x202F, 0x202F), (0x205F, 0x205F), (0x3000, 0x3000)]

example : apart blankRanges = true := by decide

/-- Whether the character is a blank. -/
def isBlank (c : Char) : Bool :=
  inRanges blankRanges c.toNat

/-- Every character that core calls white space is blank. -/
theorem isBlank_of_isWhitespace {c : Char} (h : c.isWhitespace = true) : isBlank c = true := by
  simp only [Char.isWhitespace, Bool.or_eq_true, decide_eq_true_eq] at h
  rcases h with ((h | h) | h) | h <;> subst h <;> decide

example : isBlank 'a' = false ∧ isBlank '\u200b' = false := by decide

/-- The text without the blanks it begins with. -/
def trimStart (s : List Char) : List Char :=
  s.dropWhile isBlank

/-- The text without the blanks at either end. -/
def trim (s : List Char) : List Char :=
  (trimStart (trimStart s).reverse).reverse

/-- The string without the blanks at either end. -/
def strip (s : String) : String :=
  String.ofList (trim s.toList)

end ShiftReduce.Text
