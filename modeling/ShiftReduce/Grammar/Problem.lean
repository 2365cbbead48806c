import ShiftReduce.Grammar.Row
import ShiftReduce.Grammar.Symbol

/-!
# What can be wrong with a grammar

All problems of a grammar are reported together. A problem of a row names the row and the side it
is on, and on the right-hand side also which alternative it is in.
-/

namespace ShiftReduce

/-- A reason why rows, a grammar text or a grammar cannot be used. -/
inductive Problem where
  /-- No row yields a production. -/
  | noProductions
  /-- There is no start symbol. -/
  | noStartSymbol
  /-- The row with this identifier has no left-hand side but needs one. -/
  | emptyLeft (row : String)
  /-- The left-hand side of the row holds a blank. -/
  | spacedLeft (row : String)
  /-- The left-hand side of the row is that of another row too. -/
  | duplicateLeft (lhs : Symbol) (row : String)
  /-- The alternative of the row, counted from zero, uses the end marker. -/
  | reservedSymbol (row : String) (alternative : Nat)
  /-- The line of the grammar text, counted from one, belongs to no production. -/
  | orphanLine (number : Nat)
deriving DecidableEq

/-- The two sides of a row. -/
inductive Side where
  /-- The left-hand side. -/
  | left
  /-- The right-hand side. -/
  | right
deriving DecidableEq

/-- The name of a side in reports. -/
def Side.name : Side → String
  | .left => "lhs"
  | .right => "rhs"

namespace Problem

/-- The message of a problem, without the place. -/
def message : Problem → String
  | noProductions => "Grammar has no productions"
  | noStartSymbol => "Grammar has no start symbol"
  | emptyLeft _ => "LHS cannot be empty"
  | spacedLeft _ => "LHS cannot contain spaces"
  | duplicateLeft lhs _ => s!"Duplicate LHS: '{lhs}'"
  | reservedSymbol _ _ => s!"Symbol '{endMarker}' is reserved for end of input"
  | orphanLine number => s!"Line {number}: expected a production like 'A -> alpha'"

/-- The identifier of the row a problem is in. -/
def row? : Problem → Option String
  | emptyLeft row => some row
  | spacedLeft row => some row
  | duplicateLeft _ row => some row
  | reservedSymbol row _ => some row
  | _ => none

/-- The side of the row a problem is on. -/
def side? : Problem → Option Side
  | emptyLeft _ => some .left
  | spacedLeft _ => some .left
  | duplicateLeft _ _ => some .left
  | reservedSymbol _ _ => some .right
  | _ => none

/-- The alternative of the row a problem is in, counted from zero. -/
def alternative? : Problem → Option Nat
  | reservedSymbol _ alternative => some alternative
  | _ => none

/-- The problem with its place in front. -/
def text (p : Problem) : String :=
  match p.row?, p.alternative? with
  | none, _ => p.message
  | some row, none => s!"row {row}: {p.message}"
  | some row, some k => s!"row {row}, alternative {k + 1}: {p.message}"

/-- Several problems on one line. -/
def texts (l : List Problem) : String :=
  "; ".intercalate (l.map text)

end Problem

end ShiftReduce
