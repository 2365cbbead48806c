import ShiftReduce.Json.Value
import ShiftReduce.Render.AutomatonGraph
import ShiftReduce.Render.ErrorPage
import ShiftReduce.Render.TracePage
import ShiftReduce.Render.TreeGraph
import ShiftReduce.Session.Basic

/-!
# Reports

A report is the answer of a session, a list of named entries. It says whether the session got as
far as it was asked, and then either what it found, with pages and graphs for display, or why it got
no further. The report of a table goes on from that of its automaton.

Beside the JSON values that are meant for display, a report carries what the session works with: the
grammar, the automaton or the table that a further stage starts from. They are no JSON values.
-/

namespace ShiftReduce

open Json

/-- The fields of a JSON object. -/
abbrev Fields := List (String × Value)

/-- What a report can hold. -/
inductive Entry where
  /-- A JSON value. -/
  | value (v : Value)
  /-- The grammar that a session works with. -/
  | grammar (g : Grammar)
  /-- The automaton that it works with. -/
  | automaton (m : Automaton)
  /-- The table that it works with. -/
  | table (t : Table)

/-- The named entries of a report. -/
abbrev Report := List (String × Entry)

namespace Report

/-- The report of values alone. -/
def ofFields (fields : Fields) : Report :=
  fields.map fun f => (f.1, .value f.2)

/-- The value of an entry, null if there is none of that name or it is no value. -/
def value (r : Report) (name : String) : Value :=
  match r.lookup name with
  | some (.value v) => v
  | _ => .null

end Report

/-! ### Parts of reports -/

/-- A production in a report. -/
def Production.report (p : Production) : Value :=
  .obj [("id", .int p.id), ("left", .str p.lhs), ("right", .strings p.rhs), ("raw", .str p.text)]

/-- A problem in a report. -/
def Problem.report (p : Problem) : Value :=
  .obj [("rowId", .optional p.row?), ("message", .str p.message),
    ("field", .optional (p.side?.map Side.name)),
    ("altIndex", (p.alternative?.map Value.nat).getD .null)]

/-- An action in a report. -/
def Action.report : Action → Value
  | .shift target => .obj [("type", .str "shift"), ("to", .int target)]
  | .reduce production => .obj [("type", .str "reduce"), ("prodId", .int production)]
  | .accept => .obj [("type", .str "accept")]

/-- A conflict in a report. -/
def Conflict.report (c : Conflict) : Value :=
  .obj [("stateId", .int c.state), ("symbol", .str c.symbol), ("existing", c.existing.report),
    ("incoming", c.incoming.report), ("kind", .str c.kind.name),
    ("causedBy", .obj [("existingItems", .strings c.existingItems),
      ("incomingItems", .strings c.incomingItems)])]

/-- The fields of a step in a report. -/
def Record.fields (r : Record) : Fields :=
  [("step", .int r.number),
    ("stack", .arr (r.stack.map fun (state, symbol) =>
      .obj [("stateId", .int state), ("symbol", .optional symbol)])),
    ("input", .strings r.input),
    ("action", .str r.action),
    ("actionEntry", (r.entry.map Action.report).getD .null),
    ("rule", .optional (r.production.map Production.text))]

mutual

/-- A tree in a report. -/
def Tree.report : Tree → Value
  | .node label isTerminal children =>
    .obj [("label", .str label), ("isTerminal", .bool isTerminal),
      ("children", .arr (Tree.reports children))]

/-- Several trees in a report. -/
def Tree.reports : List Tree → List Value
  | [] => []
  | t :: rest => t.report :: Tree.reports rest

end

/-- The contents of a sheet by state and symbol. -/
def Cells.report {α : Type} (s : Cells α) (content : α → Value) : Value :=
  .obj (s.rows.map fun (state, cells) =>
    (toString state, .obj (cells.map fun (symbol, a) => (symbol, content a))))

/-! ### Whole reports -/

namespace Refusal

/-- The problems behind a refusal. -/
def problems : Refusal → List Problem
  | invalidGrammar problems => problems
  | noAutomaton problems => problems

/-- The refusal in words. -/
def message : Refusal → String
  | invalidGrammar _ => "Grammar is invalid"
  | noAutomaton _ => "Automaton construction failed"

/-- The fields of a refusal. -/
def fields (r : Refusal) : Fields :=
  [("success", .bool false), ("error", .str r.message), ("error_type", .str "grammar_error")]
    ++ match r with
      | invalidGrammar problems =>
        [("errors", .arr (problems.map Problem.report)),
          ("error_html", .str (Render.problemsPage {} (problems.map Render.Notice.ofProblem)))]
      | noAutomaton problems =>
        [("errors", .arr (problems.map fun p => .obj [("message", .str p.message)]))]

/-- The report of a refusal. -/
def report (r : Refusal) : Report :=
  .ofFields r.fields

end Refusal

/-- The fields of a grammar. -/
def Grammar.fields (g : Grammar) : Fields :=
  [("start_symbol", .str g.start),
    ("productions", .arr (g.productions.map Production.report)),
    ("terminals", .strings g.terminals.toList),
    ("non_terminals", .strings g.nonTerminals.toList)]

/-- The report of a grammar. -/
def Grammar.report (g : Grammar) : Report :=
  ("success", .value (.bool true)) :: ("grammar", .grammar g) :: Report.ofFields g.fields

/-- The fields of an automaton. -/
def Automaton.fields (m : Automaton) : Fields :=
  [("start_prime", .str m.grammar.top),
    ("augmented_productions", .arr (m.grammar.productions.toList.map Production.report)),
    ("states", .arr (m.states.map fun s =>
      .obj [("id", .nat s.id), ("items", .strings (s.items.map m.grammar.itemText)),
        ("signature", .str s.signature)])),
    ("transitions", .arr (m.transitions.map fun t =>
      .obj [("from", .nat t.source), ("symbol", .str t.symbol), ("to", .nat t.target)])),
    ("automaton_dot", .str (Render.automatonGraph {} m "LR(0) Automaton").write)]

/-- The report of an automaton. -/
def Automaton.report (m : Automaton) : Report :=
  ("success", .value (.bool true)) :: ("automaton", .automaton m) :: Report.ofFields m.fields

namespace BuiltTable

/-- The page of the table. -/
def page (b : BuiltTable) : String :=
  Render.tablePage {} b.table b.automaton.grammar

/-- How large the table is. -/
def info (b : BuiltTable) : Value :=
  .obj [("states_count", .nat b.automaton.states.length),
    ("action_entries", .nat b.table.action.size),
    ("goto_entries", .nat b.table.goto.size),
    ("conflicts_count", .nat b.table.conflicts.size)]

/-- The conflicts of the table. -/
def conflicts (b : BuiltTable) : Value :=
  .arr (b.table.conflicts.toList.map Conflict.report)

/-- The fields that a table adds to those of its automaton. -/
def fields (b : BuiltTable) : Fields :=
  [("action", b.table.action.report Action.report),
    ("goto", b.table.goto.report Value.int),
    ("conflicts", b.conflicts),
    ("is_lr0", .bool b.table.isLR0),
    ("parse_table_html", .str b.page),
    ("conflicts_html", .str (Render.conflictsPage {} b.table.conflicts.toList)),
    ("table_info", b.info)]

/-- The report of a table, which begins with that of its automaton. -/
def report (b : BuiltTable) : Report :=
  b.automaton.report ++ ("table", .table b.table) :: Report.ofFields b.fields

end BuiltTable

/-- The fields that say how a run ended. -/
def Outcome.fields (o : Outcome) (input : String) : Fields :=
  match o with
  | .accepted none => []
  | .accepted (some tree) =>
    [("parse_tree", tree.report),
      ("parse_tree_dot", .str (Render.treeGraph tree s!"Parse Tree for '{input}'").write)]
  | o =>
    let title := match o with
      | .blocked _ => "Simulation Blocked"
      | _ => "Parse Error"
    [("error", .str o.message), ("error_type", .optional o.reason?),
      ("error_html", .str (Render.messagePage {} o.message title))]

/-- The fields of a run. -/
def Simulation.fields (s : Simulation) : Fields :=
  [("success", .bool s.run.outcome.success),
    ("status", .str s.run.outcome.status),
    ("tokens", .strings (Text.lexemesOf s.input)),
    ("trace", .arr (s.run.trace.map fun step => .obj step.record.fields)),
    ("trace_steps", .nat s.run.trace.length),
    ("trace_html", .str (Render.tracePage {} (s.run.trace.map Step.record) "Parsing Trace")),
    ("parse_table_html", .str s.built.page),
    ("table_info", s.built.info),
    ("conflicts", s.built.conflicts),
    ("input_string", .str s.input)]
    ++ s.run.outcome.fields s.input

/-- The report of a run. -/
def Simulation.report (s : Simulation) : Report :=
  .ofFields s.fields

end ShiftReduce
