import ShiftReduce.Text.Replacement

/-!
# Entities for marked-up text

In marked-up text the five characters `& < > " '` stand for themselves only as entities. The
entity of the apostrophe has two spellings in use, so it is a parameter; the other four have one.

`substitute` replaces the five characters at once. `substituteInTurn` goes over the text once for
each of them; it takes the ampersand first, so that no entity it has put in is taken apart again.
-/

namespace ShiftReduce.Text.Entity

/-- The apostrophe in pages, by its hexadecimal number. -/
def pageApostrophe : String := "&#x27;"

/-- The apostrophe in error texts, by its decimal number with a leading zero. -/
def errorApostrophe : String := "&#039;"

/-- The characters that need an entity, with it. -/
def entities (apostrophe : String) : List (Char × String) :=
  [('&', "&amp;"), ('<', "&lt;"), ('>', "&gt;"), ('"', "&quot;"), ('\'', apostrophe)]

/-- One character of marked-up text. -/
def entityOr (apostrophe : String) (c : Char) : List Char :=
  match (entities apostrophe).lookup c with
  | some entity => entity.toList
  | none => [c]

/-- The text with each character that needs it replaced by its entity. -/
def substitute (apostrophe : String) (s : String) : String :=
  String.ofList (s.toList.flatMap (entityOr apostrophe))

/-- The text with the characters that need it replaced one after the other. -/
def substituteInTurn (apostrophe : String) (s : String) : String :=
  replaceInTurn (entities apostrophe) s

end ShiftReduce.Text.Entity
