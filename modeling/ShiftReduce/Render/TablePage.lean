import ShiftReduce.Render.Appearance
import ShiftReduce.Table.Basic

/-!
# Parse tables as pages

The page of a parse table has a row for every state that fills a cell and a column for every
symbol: the terminals, the end marker, and the non-terminals without the fresh start symbol. A
cell with conflicts shows the action that is kept and, behind it, those that were rejected.
-/

namespace ShiftReduce.Render

open Markup

/-- A message that stands for an empty page. -/
def emptyPage (a : Appearance) (message : String) : String :=
  (block "div" [cls a.errorClasses] [textIn "p" [] message]).write

namespace TablePage

/-- The columns of the GOTO part. -/
def gotoColumns (g : Augmented) : List Symbol :=
  g.nonTerminals.toList.filter (· ≠ g.top)

/-- The states that fill a cell, in ascending order. -/
def rows (t : Table) : List Int :=
  Ascending.ofList (t.action.rows.map (·.1) ++ t.goto.rows.map (·.1))

/-- The heading above several columns, if there are any. -/
def groupHeading (columns : List Symbol) (title : String) : List Markup :=
  if columns.isEmpty then []
  else [textIn "th" [cls "grammar-table-header", ("scope", "colgroup"),
    ("colspan", toString columns.length)] title]

/-- The heading of the table: the two parts, and below them the symbols. -/
def heading (g : Augmented) : Markup :=
  block "thead" [] [
    block "tr" [] (
      textIn "th" [cls "grammar-table-header grammar-table-header-primary", ("scope", "col"),
          ("rowspan", "2")] "State"
        :: groupHeading g.lookaheads "ACTION" ++ groupHeading (gotoColumns g) "GOTO"),
    block "tr" [] ((g.lookaheads ++ gotoColumns g).map fun x =>
      textIn "th" [cls "grammar-table-header", ("scope", "col")] x)]

/-- An action, set off by its sort. -/
def actionMark : Option Action → List Markup
  | none => []
  | some action => [textIn "span" [cls ("grammar-action-" ++ action.name)] action.text]

/-- The conflicts in the row of a state. -/
def conflictsIn (t : Table) (state : Int) : List Conflict :=
  t.conflicts.toList.filter (·.state = state)

/-- The actions that the conflicts of a row reject on a symbol. -/
def rejected (conflicts : List Conflict) (x : Symbol) : List Action :=
  (conflicts.filter (·.symbol = x)).map (·.incoming)

/-- A cell of the ACTION part in a row with the given conflicts. -/
def actionCell (t : Table) (conflicts : List Conflict) (c : Cell) : Markup :=
  match rejected conflicts c.symbol with
  | [] => inline "td" [cls "grammar-table-cell"] (actionMark (t.action.get? c))
  | actions =>
    let texts := " / ".intercalate (actions.map Action.text)
    inline "td" [cls "grammar-table-cell grammar-action-conflict", ("title", "rejected: " ++ texts)]
      (actionMark (t.action.get? c) ++ [textIn "span" [cls "conflict-action"] (" / " ++ texts)])

/-- A cell of the GOTO part. -/
def gotoCell (t : Table) (c : Cell) : Markup :=
  textIn "td" [cls "grammar-table-cell"] (((t.goto.get? c).map toString).getD "")

/-- The row of a state. -/
def row (t : Table) (g : Augmented) (state : Int) : Markup :=
  let conflicts := conflictsIn t state
  block "tr" [] (
    textIn "th" [cls "grammar-table-cell grammar-table-cell-primary", ("scope", "row")]
        (toString state)
      :: g.lookaheads.map (fun x => actionCell t conflicts ⟨state, x⟩)
      ++ (gotoColumns g).map fun x => gotoCell t ⟨state, x⟩)

/-- The table with all its rows. -/
def body (a : Appearance) (t : Table) (g : Augmented) : Markup :=
  block "table" [cls ("grammar-table " ++ a.tableClasses), ("role", "table"),
      ("aria-label", "LR(0) Parsing Table with ACTION and GOTO sections")]
    [heading g, block "tbody" [] ((rows t).map (row t g))]

end TablePage

/-- The page of a parse table. -/
def tablePage (a : Appearance) (t : Table) (g : Augmented) : String :=
  if (TablePage.rows t).isEmpty then emptyPage a "No parsing states found"
  else (TablePage.body a t g).write

end ShiftReduce.Render
