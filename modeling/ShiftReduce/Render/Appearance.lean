import ShiftReduce.Render.Markup

/-!
# The appearance of pages and graphs

What a user may choose about the looks of what is rendered, and the style sheet that error pages
carry unless the user wants to style them otherwise.
-/

namespace ShiftReduce.Render

/-- The choices about the looks of pages and graphs. -/
structure Appearance where
  /-- The further classes of a parse table. -/
  tableClasses : String := "parse-table"
  /-- The classes of a trace. -/
  traceClasses : String := "parsing-trace"
  /-- The classes of an error message. -/
  errorClasses : String := "error-message"
  /-- Whether error pages carry their style sheet. -/
  inlineStyles : Bool := true
  /-- Whether a state of a graph shows its number only. -/
  compact : Bool := false
  /-- How many items a state of a graph shows at most; none if it is zero or less. -/
  maxItems : Int := 8

/-- The rules of the style sheet: selectors with their properties. -/
def styleRules : List (String × List (String × String)) :=
  [(".error-message",
      [("color", "#cc0000"), ("background-color", "#ffeeee"), ("border", "1px solid #cc0000"),
       ("border-radius", "4px"), ("padding", "10px"), ("margin", "10px 0"),
       ("font-family", "Arial, sans-serif")]),
   (".error-text", [("font-weight", "bold"), ("margin", "5px 0")]),
   (".conflict-report, .grammar-errors",
      [("background-color", "#fff8e1"), ("border", "1px solid #ff9800"), ("border-radius", "4px"),
       ("padding", "10px"), ("margin", "10px 0")]),
   (".conflict-item, .error-item",
      [("margin", "10px 0"), ("padding", "8px"), ("background-color", "#ffffff"),
       ("border-left", "3px solid #ff9800")]),
   (".no-conflicts, .no-errors",
      [("color", "#4caf50"), ("font-weight", "bold"), ("padding", "10px"),
       ("background-color", "#e8f5e8"), ("border", "1px solid #4caf50"),
       ("border-radius", "4px")])]

/-- One rule of a style sheet. -/
def writeRule (rule : String × List (String × String)) : String :=
  rule.1 ++ " \x7b\n"
    ++ String.join
      (rule.2.map fun (property, value) => "    " ++ property ++ ": " ++ value ++ ";\n")
    ++ "\x7d\n"

/-- The style sheet of error pages, with a blank line above and below. -/
def styleSheet : Markup :=
  .verbatim ("\n<style>\n" ++ "\n".intercalate (styleRules.map writeRule) ++ "</style>\n")

/-- The style sheet, if it is wanted. -/
def Appearance.styles (a : Appearance) : List Markup :=
  if a.inlineStyles then [styleSheet] else []

end ShiftReduce.Render
