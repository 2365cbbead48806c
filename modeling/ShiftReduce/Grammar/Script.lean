import ShiftReduce.Grammar.Comment
import ShiftReduce.Grammar.OfRows
import ShiftReduce.Text.Word

/-!
# Grammar scripts

A grammar may be written as a text, the *script*. After comments and blank lines are gone, a line
is one of three things.

* A **production line** is a name, an arrow (`->`, `:` or `=`) and alternatives between bars.
* A **bar line** begins with a bar and adds alternatives to the production above it.
* Any other line is a **plain line** and goes on with the last alternative above it.

The lines give rows, one for each name in order of first occurrence; a name that comes again adds
to its row. An alternative spelled `ε`, `eps` or `epsilon` ticks the row's empty word instead of
being listed. Bar lines and plain lines that stand before the first production line are orphans,
and every one of them is reported.
-/

namespace ShiftReduce.Script

/-- The spellings of the empty word. -/
def emptySpellings : List String := ["ε", "eps", "epsilon"]

/-- A line of a script. -/
inductive Line where
  /-- A name with the text of its alternatives. -/
  | production (name : Symbol) (alternatives : String)
  /-- A bar with the text of the alternatives behind it. -/
  | bar (alternatives : String)
  /-- Any other line. -/
  | plain (text : String)
deriving DecidableEq

/-- The text behind an arrow that begins the given text. -/
def afterArrow? : List Char → Option (List Char)
  | '-' :: '>' :: rest => some rest
  | ':' :: rest => some rest
  | '=' :: rest => some rest
  | _ => none

/-- The name of a production line and the text behind its arrow. -/
def production? : List Char → Option (List Char × List Char)
  | c :: rest =>
    if Text.isNameStart c then
      let behind := Text.trimStart (rest.dropWhile Text.isNameRest)
      (afterArrow? behind).map fun alternatives =>
        (c :: rest.takeWhile Text.isNameRest, Text.trimStart alternatives)
    else none
  | [] => none

/-- What a line is. -/
def Line.ofText (text : String) : Line :=
  match text.toList with
  | '|' :: rest => .bar (String.ofList rest)
  | s =>
    match production? s with
    | some (name, alternatives) => .production (String.ofList name) (String.ofList alternatives)
    | none => .plain text

/-- Adds the alternatives in a text to a row. -/
def addAlternatives (row : Row) (text : String) : Row :=
  ((Text.pieces '|' text).map Text.strip).foldl (fun row alternative =>
    if alternative ∈ emptySpellings then { row with hasEpsilon := true }
    else if alternative = "" then row
    else { row with right := row.right ++ [alternative] }) row

/-- Goes on with the last alternative of a row. -/
def extendLast (row : Row) (text : String) : Row :=
  match row.right.getLast? with
  | none => { row with right := [text] }
  | some last => { row with right := row.right.dropLast ++ [last ++ " " ++ text] }

/-- What has been read of a script. -/
structure Draft where
  /-- The rows so far. -/
  rows : List Row := []
  /-- The left-hand side of the row that the last production line went to. -/
  current : Option Symbol := none
  /-- The problems so far. -/
  problems : List Problem := []

namespace Draft

/-- Changes the row of a name. -/
def update (d : Draft) (name : Symbol) (f : Row → Row) : Draft :=
  { d with rows := d.rows.map fun row => if row.left = name then f row else row }

/-- Makes the row of a name the current one, beginning it if there is none yet. -/
def select (d : Draft) (name : Symbol) : Draft :=
  if d.rows.any (·.left = name) then { d with current := some name }
  else
    let row : Row := { id := "row-" ++ toString (d.rows.length + 1), left := name }
    { d with rows := d.rows ++ [row], current := some name }

/-- Reads one more line. -/
def read (d : Draft) (number : Nat) (line : Line) : Draft :=
  match line, d.current with
  | .production name alternatives, _ =>
    (d.select name).update name (addAlternatives · alternatives)
  | .bar alternatives, some name => d.update name (addAlternatives · alternatives)
  | .plain text, some name => d.update name (extendLast · text)
  | _, none => { d with problems := d.problems ++ [.orphanLine number] }

end Draft

/-- What a script gives when read to its end. -/
def read (script : String) : Draft :=
  (Comment.lines script).foldl (fun d (number, line) => d.read number (.ofText line)) {}

/-- The rows of a script, or its orphan lines. -/
def rows (script : String) : Except (List Problem) (List Row) :=
  match (read script).problems with
  | [] => .ok (read script).rows
  | problems => .error problems

end ShiftReduce.Script

namespace ShiftReduce.Grammar

/-- The grammar that a script describes, or everything that is wrong with it. -/
def ofScript (script : String) : Except (List Problem) Grammar := do
  ofRows (← Script.rows script)

end ShiftReduce.Grammar
