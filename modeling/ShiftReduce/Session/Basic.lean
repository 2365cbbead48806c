import ShiftReduce.Grammar.Script
import ShiftReduce.Run.Trace

/-!
# Sessions

A session holds what a user has authored, as rows or as a script, and takes it as far as asked:
to the grammar, to the automaton, to the table, to the run on an input. Rows, once there, win
over the script. Every answer is made afresh from what is authored.
-/

namespace ShiftReduce

/-- What a user has authored, with the settings chosen. -/
structure Session where
  /-- The rows, if any were authored. -/
  rows : Option (List Row) := none
  /-- The script, if any was authored. -/
  script : Option String := none
  /-- The settings. -/
  settings : Settings := {}

/-- Why a session has no answer. -/
inductive Refusal where
  /-- What is authored is no grammar. -/
  | invalidGrammar (problems : List Problem)
  /-- The grammar has no automaton. -/
  | noAutomaton (problems : List Problem)
deriving DecidableEq

/-- Why a session has no run. -/
inductive NoRun where
  /-- There is no table to run on. -/
  | refused (r : Refusal)
  /-- The run has no outcome. -/
  | fault (f : Fault)
deriving DecidableEq

/-- A table with the automaton it was made from. -/
structure BuiltTable where
  /-- The automaton. -/
  automaton : Automaton
  /-- Its table. -/
  table : Table

/-- A run with the input and the table it was made from. -/
structure Simulation where
  /-- The table and its automaton. -/
  built : BuiltTable
  /-- The input, as typed. -/
  input : String
  /-- The run on the symbols of the input. -/
  run : Run

namespace Session

/-- The grammar that is authored. -/
def grammar (s : Session) : Except Refusal Grammar :=
  (match s.rows with
    | some rows => Grammar.ofRows rows
    | none => Grammar.ofScript (s.script.getD "")).mapError .invalidGrammar

/-- The automaton of the grammar. -/
def automaton (s : Session) : Except Refusal Automaton := do
  (Automaton.ofGrammar (← s.grammar) s.settings).mapError .noAutomaton

/-- The table of the automaton. -/
def table (s : Session) : Except Refusal BuiltTable := do
  let automaton ← s.automaton
  return ⟨automaton, .ofAutomaton automaton⟩

/-- The run of the table on an input. -/
def simulate (s : Session) (input : String) : Except NoRun Simulation := do
  let built ← s.table.mapError .refused
  let run ← (Run.ofTokens built.table built.automaton s.settings true
    (Text.lexemesOf input)).mapError .fault
  return ⟨built, input, run⟩

end Session

end ShiftReduce
