import ShiftReduce.Json.Value
import ShiftReduce.Text.Pieces

/-!
# Authoring rows

A row is one line of an authoring form: a left-hand side, its alternatives as texts, and a tick
for the empty word. `Row.ofFields` reads a row from a JSON object and is generous about it: any
value has a text, a missing identifier is made from the row's place, and the alternatives may
come as one text, cut at the bars, as an array, or as an object, whose names then count. Only a
number other than zero or the value true cannot be taken for a list of alternatives.
-/

namespace ShiftReduce

open Json

/-- One authoring row: a left-hand side with its alternatives. -/
structure Row where
  /-- The identifier by which problems name the row. -/
  id : String
  /-- The left-hand side, as typed. -/
  left : String
  /-- The alternatives, as typed. -/
  right : List String := []
  /-- Whether the empty word is an alternative too. -/
  hasEpsilon : Bool := false
deriving DecidableEq

namespace Row

/-- Why a JSON object is no row: its alternatives are a value of this kind, which holds none. -/
structure Malformed where
  /-- The name of the kind of value. -/
  kind : String

/-- The message that goes with a malformed row. -/
def Malformed.message (e : Malformed) : String :=
  "'" ++ e.kind ++ "' object is not iterable"

/-- The alternatives that a value lists. -/
def alternatives : Value → Except Malformed (List String)
  | .str s => .ok (if s = "" then [] else Text.pieces '|' s)
  | .arr items => .ok (items.map Value.text)
  | .obj fields => .ok (fields.map (·.1))
  | v => if v.isGiven then .error ⟨v.kindName⟩ else .ok []

/-- The row at a place, counted from zero, whose JSON object has the given fields. -/
def ofFields (fields : List (String × Value)) (place : Int) : Except Malformed Row := do
  let right ← alternatives (Value.field fields "right")
  let id := Value.field fields "id"
  let left := Value.field fields "left"
  return {
    id := if id.isGiven then id.text else "row-" ++ toString (place + 1)
    left := if left.isGiven then left.text else ""
    right
    hasEpsilon := (Value.field fields "hasEpsilon").isGiven }

/-- The rows of a list of JSON objects, each given by its fields. -/
def ofList (objects : List (List (String × Value))) : Except Malformed (List Row) :=
  objects.zipIdx.mapM fun (fields, place) => ofFields fields place

end Row

end ShiftReduce
