import ShiftReduce.Text.Replacement

/-!
# Graphs as text

A graph is written as a title and one statement to a line: a setting, a default for all nodes or
edges, a node, or an edge. Texts stand between quotation marks. Five characters are replaced in
them, one after the other: a backslash is put before a mark or another backslash, and line breaks
and tabs are written by letter.
-/

namespace ShiftReduce.Render.Dot

/-- The characters that stand behind a backslash in quoted texts, with how they are written. The
backslash comes first, so that none that is put in for another is taken for one of the text. -/
def escapes : List (Char × String) :=
  [('\\', "\\\\"), ('"', "\\\""), ('\n', "\\n"), ('\t', "\\t"), ('\r', "\\r")]

/-- A text as it is written between quotation marks. -/
def escape (s : String) : String :=
  Text.replaceInTurn escapes s

/-- A text between quotation marks. -/
def quoted (s : String) : String :=
  "\"" ++ escape s ++ "\""

/-- The value of an attribute. -/
inductive Value where
  /-- A word, which needs no marks. -/
  | word (s : String)
  /-- A text between quotation marks. -/
  | text (s : String)
deriving DecidableEq

/-- The source of a value. -/
def Value.write : Value → String
  | word s => s
  | text s => quoted s

/-- A named value. -/
abbrev Attribute := String × Value

/-- A named value, as it is written. -/
def writeAttribute (a : Attribute) : String :=
  a.1 ++ "=" ++ a.2.write

/-- A statement of a graph. -/
inductive Statement where
  /-- A setting of the whole graph. -/
  | setting (value : Attribute)
  /-- A node, or the default of all nodes or edges, with its attributes. -/
  | node (name : String) (attributes : List Attribute)
  /-- An edge with its attributes. -/
  | edge (source target : String) (attributes : List Attribute)
deriving DecidableEq

/-- Attributes in brackets, nothing if there are none. -/
def writeAttributes (attributes : List Attribute) : String :=
  if attributes.isEmpty then ""
  else " [" ++ ", ".intercalate (attributes.map writeAttribute) ++ "]"

/-- The line of a statement. -/
def Statement.write : Statement → String
  | setting a => "  " ++ writeAttribute a ++ ";"
  | node name attributes => "  " ++ name ++ writeAttributes attributes ++ ";"
  | edge source target attributes =>
    "  " ++ source ++ " -> " ++ target ++ writeAttributes attributes ++ ";"

/-- A graph. -/
structure Graph where
  /-- The title. -/
  title : String
  /-- The statements in order. -/
  statements : List Statement
deriving DecidableEq

/-- The source of a graph. -/
def Graph.write (g : Graph) : String :=
  "\n".intercalate
    (("digraph " ++ quoted g.title ++ " \x7b") :: g.statements.map Statement.write ++ ["\x7d"])

end ShiftReduce.Render.Dot
