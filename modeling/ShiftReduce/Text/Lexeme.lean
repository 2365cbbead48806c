import ShiftReduce.Text.Blank

/-!
# Lexemes

A right-hand side and an input to be parsed are cut into lexemes in the same way. Blanks
separate, each of the marks `( ) + * | $` stands alone, and every other run of characters
extends as far as it can.

The cut is defined from the right: a character that is neither blank nor mark joins the lexeme
that begins right after it, if one does that is itself such a run, and begins a new one
otherwise.
-/

namespace ShiftReduce.Text

/-- The characters that always stand alone. -/
def isMark (c : Char) : Bool :=
  ['(', ')', '+', '*', '|', '$'].contains c

/-- The characters that runs are made of: neither blank nor mark. -/
def isOrdinary (c : Char) : Bool :=
  !isBlank c && !isMark c

/-- Whether the text begins with an ordinary character. -/
def beginsRun : List Char → Bool
  | [] => false
  | c :: _ => isOrdinary c

/-- Puts a character in front of the first lexeme. -/
def extendFirst (c : Char) : List (List Char) → List (List Char)
  | [] => [[c]]
  | w :: ws => (c :: w) :: ws

/-- The lexemes of a text, in order. -/
def lexemes : List Char → List (List Char)
  | [] => []
  | c :: rest =>
    if isBlank c then lexemes rest
    else if isMark c then [c] :: lexemes rest
    else if beginsRun rest then extendFirst c (lexemes rest)
    else [c] :: lexemes rest

/-- The lexemes of a string, as strings. -/
def lexemesOf (s : String) : List String :=
  (lexemes s.toList).map String.ofList

example : lexemesOf "id+ (x y)" = ["id", "+", "(", "x", "y", ")"] := by decide +kernel

end ShiftReduce.Text
