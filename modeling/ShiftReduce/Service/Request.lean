import ShiftReduce.Service.Framework

/-!
# Requests

A request posts a JSON object with the grammar, as `rows` or as a script in `cfg`, and for a run
the `input`. What the object holds is checked in order: the rows, the script if there are no rows,
and last the input. A script that is no text is let through here and found out when it is read.
-/

namespace ShiftReduce.Service

open Json

/-- The stages that can be asked for. -/
inductive Stage where
  /-- The grammar. -/
  | grammar
  /-- The automaton. -/
  | automaton
  /-- The table. -/
  | table
  /-- A run. -/
  | simulation
deriving DecidableEq

/-- The path under which a stage is asked for. -/
def Stage.path : Stage → String
  | grammar => "/build-grammar"
  | automaton => "/build-automaton"
  | table => "/build-parse-table"
  | simulation => "/simulate-parse"

/-- The stages in order. -/
def stages : List Stage :=
  [.grammar, .automaton, .table, .simulation]

/-! ### What an object holds -/

/-- What a request gives as a grammar. -/
inductive Source where
  /-- Rows. -/
  | rows (rows : List Row)
  /-- A script. -/
  | script (text : String)
  /-- A value of this kind in place of a script. -/
  | noScript (kind : String)

/-- Why a request gets no further than its body. -/
inductive BadRequest where
  /-- The body is no object. -/
  | noObject
  /-- The rows are no list of objects. -/
  | noRows
  /-- There is neither a row list nor a script. -/
  | noGrammar
  /-- There is no input to run on. -/
  | noInput
  /-- The alternatives of a row are no list. -/
  | badRow (e : Row.Malformed)

/-- The fields of each value of a list, if they are all objects. -/
def objects? : List Value → Option (List Fields)
  | [] => some []
  | .obj fields :: rest => (objects? rest).map (fields :: ·)
  | _ => none

/-- The grammar that a body gives. -/
def Source.ofFields (fields : Fields) : Except BadRequest Source :=
  match Value.field fields "rows" with
  | .null =>
    match Value.field fields "cfg" with
    | .str "" => .error .noGrammar
    | .str text => .ok (.script text)
    | v => if v.isGiven then .ok (.noScript v.kindName) else .error .noGrammar
  | .arr items =>
    match objects? items with
    | some objects => ((Row.ofList objects).map .rows).mapError .badRow
    | none => .error .noRows
  | _ => .error .noRows

/-- The source in a body, and the text of the input if the stage needs one. -/
def readBody (stage : Stage) (v : Value) : Except BadRequest (Source × String) :=
  match v with
  | .obj fields => do
    let source ← Source.ofFields fields
    match stage, Value.field fields "input" with
    | .simulation, .null => .error .noInput
    | _, input => return (source, input.text)
  | _ => .error .noObject

end ShiftReduce.Service
