import ShiftReduce.Json.Value
import ShiftReduce.Render.Appearance
import ShiftReduce.Table.Action
import ShiftReduce.Grammar.Problem

/-!
# Error pages

There are three pages for what goes wrong: a message with a title, the list of the problems of a
grammar, and the report of the conflicts of a table.

The problems come as notices: a message and perhaps the row it is about. A notice may also be
read from a JSON object, in which any given value names the row; without a message, or with one
that is no text, the object is no notice.
-/

namespace ShiftReduce.Render

open Markup Json

/-- The page of one message. -/
def messagePage (a : Appearance) (message title : String) : String :=
  page (a.styles ++ [
    block "div" [cls a.errorClasses]
      [textIn "h4" [] title, textIn "p" [cls "error-text"] message]])

/-! ### Problems -/

/-- A message about a grammar. -/
structure Notice where
  /-- The row it is about. -/
  row : Option String
  /-- The message. -/
  message : String
deriving DecidableEq

namespace Notice

/-- Why a JSON object is no notice. -/
inductive Malformed where
  /-- It has no message. -/
  | noMessage
  /-- Its message is a value of this kind, and no text. -/
  | noText (kind : String)

/-- The message that goes with a malformed notice. -/
def Malformed.message : Malformed → String
  | noMessage => "'message'"
  | noText kind => s!"can only concatenate str (not \"{kind}\") to str"

/-- The notice that the fields of a JSON object give. -/
def ofFields (fields : List (String × Value)) : Except Malformed Notice :=
  let row := Value.field fields "rowId"
  match fields.lookup "message" with
  | none => .error .noMessage
  | some (.str message) => .ok ⟨if row.isGiven then some row.text else none, message⟩
  | some v => .error (.noText v.kindName)

/-- The notice of a problem. -/
def ofProblem (p : Problem) : Notice :=
  ⟨p.row?.filter (· ≠ ""), p.message⟩

/-- The notice on one line, the row in front. -/
def text (n : Notice) : String :=
  match n.row with
  | some row => s!"Row {row}: {n.message}"
  | none => n.message

end Notice

/-- The page of the problems of a grammar. -/
def problemsPage (a : Appearance) (notices : List Notice) : String :=
  if notices.isEmpty then (textIn "div" [cls "no-errors"] "No grammar errors found.").write
  else
    page (a.styles ++ [
      block "div" [cls "grammar-errors"] [
        textIn "h4" [] s!"Grammar Errors ({notices.length} found)",
        block "ul" [] (notices.map fun n => textIn "li" [cls "error-item"] n.text)]])

/-! ### Conflicts -/

namespace ConflictPage

/-- A line with a label in front. -/
def labelled (label content : String) : Markup :=
  inline "p" [] [textIn "strong" [] (label ++ ":"), text (" " ++ content)]

/-- A list of items. -/
def itemList (items : List String) : Markup :=
  block "ul" [cls "conflict-items"] (items.map fun i => inline "li" [] [textIn "code" [] i])

/-- The part about one conflict. -/
def part (c : Conflict) (number : Nat) : Markup :=
  block "div" [cls "conflict-item"] [
    textIn "h5" [] s!"Conflict {number}: {c.kind.name}",
    labelled "State" (toString c.state),
    labelled "Symbol" c.symbol,
    labelled "Kept" c.existing.text,
    itemList c.existingItems,
    labelled "Rejected" c.incoming.text,
    itemList c.incomingItems]

end ConflictPage

/-- The page of the conflicts of a table. -/
def conflictsPage (a : Appearance) (conflicts : List Conflict) : String :=
  if conflicts.isEmpty then
    (textIn "div" [cls "no-conflicts"] "No conflicts detected: the grammar is LR(0).").write
  else
    page (a.styles ++ [
      block "div" [cls "conflict-report"] (
        textIn "h4" [] s!"Grammar Conflicts ({conflicts.length} found)"
          :: (conflicts.zipIdx 1).map fun (c, number) => ConflictPage.part c number)])

end ShiftReduce.Render
