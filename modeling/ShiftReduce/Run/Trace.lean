import ShiftReduce.Run.Machine
import ShiftReduce.Text.Lexeme

/-!
# Runs and their traces

A run takes steps from the start until the machine stops or has taken as many steps as it may.
Every step is recorded before it is carried out, with the stack and the input that it finds. On a
table with conflicts no run begins.

What a trace shows of its steps are *records*. The record of a step is made from it
(`ShiftReduce.Step.record`), but a trace may also be put together by hand, and then nothing in a
record has to go with anything else in it.
-/

namespace ShiftReduce

/-- A recorded step. -/
structure Step where
  /-- The number of the step, counted from one. -/
  number : Nat
  /-- The start state, at the bottom of the stack. -/
  bottom : Int
  /-- The stack that the step finds, without the start state, the top first. -/
  frames : List Frame
  /-- The input that the step finds, the end marker included. -/
  input : List Symbol
  /-- What the step does. -/
  move : Move
deriving DecidableEq

namespace Step

/-- The stack from the bottom on, each state with its symbol; the start state has none. -/
def stack (s : Step) : List (Int × Option Symbol) :=
  (s.bottom, none) :: s.frames.reverse.map fun f => (f.state, some f.symbol)

end Step

/-- A step as a trace shows it. -/
structure Record where
  /-- The number of the step. -/
  number : Int
  /-- The stack from the bottom on, each state with its symbol, if it has one. -/
  stack : List (Int × Option Symbol)
  /-- The input that is left. -/
  input : List Symbol
  /-- What the step does, in words. -/
  action : String := ""
  /-- The entry of the table that the step carries out, if there is one. -/
  entry : Option Action := none
  /-- The production that the step undoes, if it undoes one. -/
  production : Option Production := none
deriving DecidableEq

namespace Record

/-- A state on the stack, behind its symbol. -/
def entryText : Int × Option Symbol → String
  | (state, none) => toString state
  | (state, some symbol) => symbol ++ " " ++ toString state

/-- The stack on one line. -/
def stackText (r : Record) : String :=
  " ".intercalate (r.stack.map entryText)

/-- The input on one line. -/
def inputText (r : Record) : String :=
  " ".intercalate r.input

/-- The step in words. -/
def text (r : Record) : String :=
  s!"Step {r.number}: Stack=[{r.stackText}] Input=[{r.inputText}] Action={r.action}"

end Record

/-- The record of a step. -/
def Step.record (s : Step) : Record where
  number := s.number
  stack := s.stack
  input := s.input
  action := s.move.text
  entry := s.move.action?
  production := s.move.production?

/-- How a run ends. -/
inductive Outcome where
  /-- The input is accepted, with its tree if one was wanted. -/
  | accepted (tree : Option Tree)
  /-- The run fails. -/
  | failed (f : Failure)
  /-- The table has this many conflicts, so there is no run. -/
  | blocked (conflicts : Nat)

namespace Outcome

/-- The name of the sort of outcome. -/
def status : Outcome → String
  | accepted _ => "accepted"
  | failed _ => "error"
  | blocked _ => "blocked"

/-- Whether the input is accepted. -/
def success : Outcome → Bool
  | accepted _ => true
  | _ => false

/-- The message that explains why the input is not accepted. -/
def message : Outcome → String
  | accepted _ => ""
  | failed f => f.message
  | blocked conflicts =>
    s!"Grammar is not LR(0): resolve the {conflicts} conflict(s) before simulating."

/-- The name of the reason why the input is not accepted. -/
def reason? : Outcome → Option String
  | accepted _ => none
  | failed f => some f.name
  | blocked _ => some "grammar_not_lr0"

/-- The tree of the input. -/
def tree? : Outcome → Option Tree
  | accepted tree => tree
  | _ => none

end Outcome

/-- A finished run. -/
structure Run where
  /-- How it ended. -/
  outcome : Outcome
  /-- The steps taken, in order. -/
  trace : List Step := []

namespace Run

/-- The run in words. -/
def text (r : Run) : String :=
  if r.outcome.success then
    "Parse successful. Tree: " ++ ((r.outcome.tree?.map Tree.text).getD "None")
  else s!"Parse {r.outcome.status}: {r.outcome.message}"

/-- Takes at most `limit` steps from a machine, the first of them with the given number. There is
no outcome if the limit comes first. -/
def steps (t : Table) (a : Automaton) (keepTrees : Bool) :
    (limit : Nat) → (number : Nat) → Machine → Except Fault (List Step × Option Outcome)
  | 0, _, _ => .ok ([], none)
  | limit + 1, number, m => do
    let (move, next) ← m.step t a keepTrees
    let now : Step := ⟨number, a.startState, m.frames, m.input, move⟩
    match next with
    | .go m =>
      let (later, outcome) ← steps t a keepTrees limit (number + 1) m
      return (now :: later, outcome)
    | .accept =>
      return ([now], some (.accepted (if keepTrees then some (m.finalTree a.grammar) else none)))
    | .fail f => return ([now], some (.failed f))

/-- The run of a table of an automaton on an input. -/
def ofTokens (t : Table) (a : Automaton) (settings : Settings) (keepTrees : Bool)
    (tokens : List Symbol) : Except Fault Run :=
  if t.isLR0 then do
    let (trace, outcome) ← steps t a keepTrees settings.maxSteps.toNat 1 (.start tokens)
    return ⟨outcome.getD (.failed (.stepLimit settings.maxSteps)), trace⟩
  else .ok ⟨.blocked t.conflicts.size, []⟩

/-- The run of a table of an automaton on an input as it is typed. -/
def ofText (t : Table) (a : Automaton) (settings : Settings) (keepTrees : Bool) (input : String) :
    Except Fault Run :=
  ofTokens t a settings keepTrees (Text.lexemesOf input)

end Run

end ShiftReduce
