import ShiftReduce.Text.Hex
import ShiftReduce.Text.UnprintableTable

/-!
# Quoted strings

How a string is written inside a bracketed list: between quotation marks, with a backslash
before what could be misread. Single marks are used unless the string holds an apostrophe and no
double mark. Line breaks and tabs have a letter of their own; any other character that has no
glyph is written by its code point in two, four or eight hexadecimal digits.
-/

namespace ShiftReduce.Text

/-- Whether the character is written as itself inside a quoted string, the marks and the
backslash apart. -/
def isPrintable (c : Char) : Bool :=
  if c.toNat < 0x80 then decide (0x20 ≤ c.toNat) && decide (c.toNat ≠ 0x7F)
  else !inRanges unprintableRanges c.toNat

/-- A character without a glyph, by its code point. -/
def codeEscape (c : Char) : List Char :=
  if c.toNat < 0x100 then '\\' :: 'x' :: hexDigits 2 c.toNat
  else if c.toNat < 0x10000 then '\\' :: 'u' :: hexDigits 4 c.toNat
  else '\\' :: 'U' :: hexDigits 8 c.toNat

/-- One character inside a string quoted with `mark`. -/
def quoteChar (mark c : Char) : List Char :=
  if c = mark ∨ c = '\\' then ['\\', c]
  else if c = '\n' then ['\\', 'n']
  else if c = '\r' then ['\\', 'r']
  else if c = '\t' then ['\\', 't']
  else if isPrintable c then [c]
  else codeEscape c

/-- The mark that encloses a string: the apostrophe, unless it occurs in the string and the
double mark does not. -/
def quoteMark (s : List Char) : Char :=
  if '\'' ∈ s ∧ '"' ∉ s then '"' else '\''

/-- The string between quotation marks. -/
def quoted (s : String) : String :=
  let mark := quoteMark s.toList
  String.ofList (mark :: s.toList.flatMap (quoteChar mark) ++ [mark])

/-- A list of strings, each quoted, between square brackets. -/
def quotedList (l : List String) : String :=
  "[" ++ ", ".intercalate (l.map quoted) ++ "]"

example : quoted "it's" = "\"it's\"" := by decide +kernel
example : quoted "a'\"\n" = "'a\\'\"\\n'" := by decide +kernel

end ShiftReduce.Text
