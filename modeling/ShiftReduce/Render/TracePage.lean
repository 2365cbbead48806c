import ShiftReduce.Render.TablePage
import ShiftReduce.Run.Trace

/-!
# Traces as pages

The page of a trace is a table with a row for every step: its number, the stack, the input, what
the step does, and the production it undoes.
-/

namespace ShiftReduce.Render

open Markup

namespace TracePage

/-- The class of a step: the sort of its action, or error if it has none. -/
def stepClass (r : Record) : String :=
  ((r.entry.map Action.name).getD "error") ++ "-step"

/-- The row of a step. -/
def row (r : Record) : Markup :=
  let cell (classes : String) (content : String) : Markup :=
    textIn "td" [cls ("grammar-table-cell " ++ classes)] content
  block "tr" [cls (stepClass r)] [
    cell "grammar-table-cell-primary step-number" (toString r.number),
    cell "stack" r.stackText,
    cell "input" r.inputText,
    cell "action" r.action,
    cell "production" ((r.production.map Production.text).getD "")]

/-- The headings of the columns. -/
def heading : Markup :=
  block "thead" [] [
    block "tr" [] (
      textIn "th" [cls "grammar-table-header grammar-table-header-primary", ("scope", "col")] "Step"
        :: ["Stack", "Input", "Action", "Production"].map fun title =>
          textIn "th" [cls "grammar-table-header", ("scope", "col")] title)]

/-- The trace with its title. -/
def body (a : Appearance) (trace : List Record) (title : String) : Markup :=
  block "div" [cls a.traceClasses] [
    textIn "h3" [] title,
    block "table" [cls "grammar-table trace-table", ("role", "table"),
        ("aria-label", "Step-by-step parsing trace")]
      [heading, block "tbody" [] (trace.map row)]]

end TracePage

/-- The page of a trace. -/
def tracePage (a : Appearance) (trace : List Record) (title : String) : String :=
  if trace.isEmpty then emptyPage a "No parsing steps recorded"
  else (TracePage.body a trace title).write

end ShiftReduce.Render
