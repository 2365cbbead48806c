import ShiftReduce.Text.Entity

/-!
# Marked-up pages

Pages are trees of elements and texts. A text is written with entities, so whatever it holds, it
adds no element; attribute values are written as they are. The children of an element either
follow each other on one line or stand on lines of their own between the tags.
-/

namespace ShiftReduce.Render

/-- How the children of an element are laid out. -/
inductive Layout where
  /-- On one line with the tags. -/
  | inline
  /-- On lines of their own. -/
  | lines
deriving DecidableEq

/-- A piece of a page. -/
inductive Markup where
  /-- Text, of any content. -/
  | text (s : String)
  /-- A finished piece, written as it is. -/
  | verbatim (s : String)
  /-- An element with its attributes and children. -/
  | element (tag : String) (attributes : List (String × String)) (layout : Layout)
      (children : List Markup)

namespace Markup

/-- An element on one line. -/
def inline (tag : String) (attributes : List (String × String)) (children : List Markup) :
    Markup :=
  element tag attributes .inline children

/-- An element whose children stand on lines of their own. -/
def block (tag : String) (attributes : List (String × String)) (children : List Markup) : Markup :=
  element tag attributes .lines children

/-- An element on one line that holds a text. -/
def textIn (tag : String) (attributes : List (String × String)) (s : String) : Markup :=
  inline tag attributes [text s]

/-- The class attribute. -/
def cls (names : String) : String × String := ("class", names)

/-- An opening tag. -/
def openTag (tag : String) (attributes : List (String × String)) : String :=
  "<" ++ tag ++ String.join (attributes.map fun (name, value) => s!" {name}=\"{value}\"") ++ ">"

/-- A closing tag. -/
def closeTag (tag : String) : String :=
  "</" ++ tag ++ ">"

mutual

/-- The page source of a piece. -/
def write : Markup → String
  | text s => Text.Entity.substitute Text.Entity.pageApostrophe s
  | verbatim s => s
  | element tag attributes .inline children =>
    openTag tag attributes ++ String.join (writeAll children) ++ closeTag tag
  | element tag attributes .lines children =>
    "\n".intercalate (openTag tag attributes :: writeAll children ++ [closeTag tag])

/-- The page sources of several pieces. -/
def writeAll : List Markup → List String
  | [] => []
  | m :: rest => write m :: writeAll rest

end

/-- The source of a page whose pieces stand on lines of their own. -/
def page (pieces : List Markup) : String :=
  "\n".intercalate (writeAll pieces)

end Markup

end ShiftReduce.Render
