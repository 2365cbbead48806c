import ShiftReduce.Grammar.Basic
import ShiftReduce.Grammar.Problem
import ShiftReduce.Text.Lexeme

/-!
# From rows to a grammar

`Grammar.ofRows` reads a grammar off authoring rows, or lists everything that is wrong with them.

A row counts by its left-hand side without the blanks around it. A row without one is passed
over, but that is a problem if the row offers an alternative, or comes first and so would have to
name the start symbol. Rows of one left-hand side are reported once each: a later row when it
repeats the left-hand side, and the first row together with the second. An alternative is read
into symbols as an input is, and may not use the end marker. Problems of left-hand sides come
before those of alternatives, each in the order of the rows.

The productions are numbered from zero in the order of the rows; within a row the empty word, if
ticked, comes before the alternatives. Every symbol that is not the left-hand side of some row is
a terminal.
-/

namespace ShiftReduce

namespace Row

/-- The left-hand side without the blanks around it. -/
def lhs (r : Row) : Symbol :=
  Text.strip r.left

/-- Whether an alternative holds something other than blanks. -/
def offers (alternative : String) : Bool :=
  !alternative.toList.all Text.isBlank

/-- Whether the row has an alternative, the empty word included. -/
def hasContent (r : Row) : Bool :=
  r.right.any offers || r.hasEpsilon

/-- The right-hand sides that the row gives to its left-hand side. -/
def bodies (r : Row) : List (List Symbol) :=
  (if r.hasEpsilon then [[]] else []) ++ (r.right.filter offers).map Text.lexemesOf

/-- What is wrong with the left-hand side of a row that comes after the rows `before`. -/
def leftProblems (r : Row) (before : List Row) : List Problem :=
  if r.lhs = "" then
    if r.hasContent || before.isEmpty then [.emptyLeft r.id] else []
  else
    (if r.lhs.toList.any Text.isBlank then [.spacedLeft r.id] else [])
      ++ match before.filter (·.lhs = r.lhs) with
        | [] => []
        | [first] => [.duplicateLeft r.lhs r.id, .duplicateLeft r.lhs first.id]
        | _ => [.duplicateLeft r.lhs r.id]

/-- What is wrong with the alternatives of a row. -/
def rightProblems (r : Row) : List Problem :=
  if r.lhs = "" then []
  else r.right.zipIdx.filterMap fun (alternative, k) =>
    if endMarker ∈ Text.lexemesOf alternative then some (.reservedSymbol r.id k) else none

/-- The problems of the left-hand sides of rows that come after the rows `before`. -/
def allLeftProblems (before : List Row) : List Row → List Problem
  | [] => []
  | r :: rest => r.leftProblems before ++ allLeftProblems (before ++ [r]) rest

end Row

namespace Grammar

/-- The left-hand sides of the rows that have one, in order. -/
def leftSides (rows : List Row) : List Symbol :=
  (rows.map Row.lhs).filter (· ≠ "")

/-- The pairs of a left-hand side and a right-hand side that rows give, in order. -/
def rulesOfRows (rows : List Row) : List (Symbol × List Symbol) :=
  (rows.filter (·.lhs ≠ "")).flatMap fun r => r.bodies.map fun body => (r.lhs, body)

/-- Everything that is wrong with a list of rows. -/
def problemsOfRows (rows : List Row) : List Problem :=
  match Row.allLeftProblems [] rows ++ rows.flatMap Row.rightProblems with
  | [] => if (rulesOfRows rows).isEmpty then [.noProductions] else []
  | problems => problems

/-- The productions that number the given rules from zero. -/
def number (rules : List (Symbol × List Symbol)) : List Production :=
  rules.zipIdx.map fun ((lhs, rhs), k) => ⟨k, lhs, rhs, Production.arrow lhs rhs⟩

/-- The grammar that rows describe, or everything that is wrong with them. -/
def ofRows (rows : List Row) : Except (List Problem) Grammar :=
  match problemsOfRows rows with
  | [] =>
    let nonTerminals := SymbolSet.ofList (leftSides rows)
    let rules := rulesOfRows rows
    .ok {
      start := ((rows.head?.map Row.lhs).getD "")
      nonTerminals
      terminals := SymbolSet.ofList ((rules.flatMap (·.2)).filter (· ∉ nonTerminals))
      productions := number rules }
  | problems => .error problems

end Grammar

end ShiftReduce
