import ShiftReduce.Text.Blank
import ShiftReduce.Text.Pieces

/-!
# Comments in a grammar text

A grammar text may hold comments of two forms: from `/*` to the next `*/`, over any number of
lines, and from `//` to the end of the line. They are taken out in this order, so a block comment
may begin inside a line comment. A `/*` that is never closed is no comment.

The line breaks of a block comment stay, so every character that is left stands on the line on
which it was written. What remains are the lines that are not blank, with their numbers.
-/

namespace ShiftReduce.Comment

/-- Whether a block comment that is open is closed somewhere in the text. -/
def closes : List Char → Bool
  | '*' :: '/' :: _ => true
  | _ :: rest => closes rest
  | [] => false

/-- The text without its block comments; `inside` says whether one is open. Of an open comment
only the line breaks are kept. -/
def dropBlocks : (inside : Bool) → List Char → List Char
  | true, '*' :: '/' :: rest => dropBlocks false rest
  | true, c :: rest => if c = '\n' then '\n' :: dropBlocks true rest else dropBlocks true rest
  | false, '/' :: '*' :: rest =>
    if closes rest then dropBlocks true rest else '/' :: '*' :: dropBlocks false rest
  | false, c :: rest => c :: dropBlocks false rest
  | _, [] => []

/-- The text without its line comments; `inside` says whether one is open. -/
def dropLines (inside : Bool) : List Char → List Char
  | [] => []
  | '\n' :: rest => '\n' :: dropLines false rest
  | '/' :: '/' :: rest => dropLines true rest
  | c :: rest => if inside then dropLines true rest else c :: dropLines false rest

/-- The text without comments. -/
def strip (s : List Char) : List Char :=
  dropLines false (dropBlocks false s)

/-- The lines of a text that hold more than comments and blanks, without the blanks at their
ends, each with its number counted from one. -/
def lines (text : String) : List (Nat × String) :=
  ((Text.pieces '\n' (String.ofList (strip text.toList))).zipIdx 1).filterMap fun (line, number) =>
    let line := Text.strip line
    if line = "" then none else some (number, line)

end ShiftReduce.Comment
