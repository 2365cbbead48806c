import ShiftReduce.Automaton.Basic
import ShiftReduce.Table.Action
import ShiftReduce.Table.Cells

/-!
# Parse tables

A parse table has an action for a state and a terminal or the end marker, a state to go to for a
state and a non-terminal, and the conflicts that came up when it was filled.

The table of an automaton is filled by *writes* in a fixed order: state by state, first the moves
of the state in order of discovery, then its completed items in ascending order. A move over a
terminal shifts. The completed production of the fresh start symbol accepts before the end
marker, and any other completed production is reduced before every terminal and the end marker,
whatever comes next. The first write to a cell stays. A later one that differs is a conflict; the
same action once more is none.

The automaton is one that was made of a grammar, so that its items can all be read. Tables of any
other automaton are made by a generator (`ShiftReduce.Table.generate?`).
-/

namespace ShiftReduce

/-- A parse table with its conflicts. -/
structure Table where
  /-- The actions. -/
  action : Cells Action := {}
  /-- The states to go to once a non-terminal is recognised. -/
  goto : Cells Int := {}
  /-- The conflicts in the order in which they came up. -/
  conflicts : Array Conflict := #[]

namespace Table

/-- Whether the table has no conflicts, so that the machine may run on it. -/
def isLR0 (t : Table) : Bool :=
  t.conflicts.isEmpty

/-- The items of a state that justify an action on a symbol. -/
def justifying (g : Augmented) (s : State) (x : Symbol) : Action → List Item
  | .shift _ => s.items.filter fun i => g.nextSymbol i = some x
  | .reduce p => s.items.filter fun i => (i.production : Int) = p ∧ g.isComplete i
  | .accept => s.items.filter fun i => i.production = 0 ∧ g.isComplete i

/-- The conflict between the action in a cell and another one. -/
def conflictBetween (g : Augmented) (s : State) (x : Symbol) (existing incoming : Action) :
    Conflict where
  state := s.id
  symbol := x
  existing
  incoming
  kind := .of existing incoming
  existingItems := (justifying g s x existing).map g.itemText
  incomingItems := (justifying g s x incoming).map g.itemText

/-- An action that wants a cell. -/
structure Write where
  /-- The state of the cell. -/
  state : State
  /-- The symbol of the cell. -/
  symbol : Symbol
  /-- The action. -/
  action : Action

/-- The cell that is written to. -/
def Write.cell (w : Write) : Cell :=
  ⟨w.state.id, w.symbol⟩

/-- Writes an action to its cell if the cell is empty, and records a conflict if it holds another
action. -/
def add (g : Augmented) (t : Table) (w : Write) : Table :=
  match t.action.get? w.cell with
  | none => { t with action := t.action.put w.cell w.action }
  | some existing =>
    if existing = w.action then t
    else
      { t with conflicts :=
          t.conflicts.push (conflictBetween g w.state w.symbol existing w.action) }

/-- The shifts of a state. -/
def shiftWrites (m : Automaton) (s : State) : List Write :=
  ((m.movesFrom s.id).filter (·.symbol ∈ m.grammar.terminals)).map fun t =>
    ⟨s, t.symbol, .shift t.target⟩

/-- What a completed item of a state writes. -/
def itemWrites (m : Automaton) (s : State) (i : Item) : List Write :=
  if m.grammar.isComplete i then
    if m.grammar.lhs i.production = m.grammar.top then [⟨s, endMarker, .accept⟩]
    else m.grammar.lookaheads.map fun x => ⟨s, x, .reduce i.production⟩
  else []

/-- The writes of a state, in order. -/
def stateWrites (m : Automaton) (s : State) : List Write :=
  shiftWrites m s ++ s.items.flatMap (itemWrites m s)

/-- The states to go to from a state. -/
def stateGotos (m : Automaton) (s : State) : List (Cell × Int) :=
  ((m.movesFrom s.id).filter fun t =>
      t.symbol ∉ m.grammar.terminals ∧ t.symbol ≠ m.grammar.top).map fun t =>
    (⟨s.id, t.symbol⟩, t.target)

/-- The table of an automaton. -/
def ofAutomaton (m : Automaton) : Table :=
  let gotos := (m.states.flatMap (stateGotos m)).foldl (fun c e => c.put e.1 e.2) {}
  (m.states.flatMap (stateWrites m)).foldl (add m.grammar) { goto := gotos }

/-- The table in words, its cells in order. -/
def text (t : Table) : String :=
  "\n".intercalate
    (["Parsing Tables:", "\nAction Table:"]
      ++ t.action.toList.map (fun (c, a) => s!"  ACTION[{c.state}, {c.symbol}] = {a.text}")
      ++ ["\nGoto Table:"]
      ++ t.goto.toList.map fun (c, target) => s!"  GOTO[{c.state}, {c.symbol}] = {target}")

/-- The lines of one conflict in a report. -/
def conflictLines (m : Automaton) (c : Conflict) (number : Nat) : List String :=
  let indent := ("    " ++ ·)
  [s!"Conflict {number}: {c.text}", s!"  State {c.state} details:"]
    ++ (((m.state? c.state).map (·.items)).getD []).map (fun i => indent (m.grammar.itemText i))
    ++ [s!"  Kept {c.existing.text} because of:"] ++ c.existingItems.map indent
    ++ [s!"  Rejected {c.incoming.text} because of:"] ++ c.incomingItems.map indent
    ++ [""]

/-- The conflicts of a table of an automaton, with the states they are in and their reasons. -/
def conflictReport (m : Automaton) (t : Table) : String :=
  if t.conflicts.isEmpty then "No conflicts detected in the parsing tables."
  else
    "\n".intercalate
      (s!"Found {t.conflicts.size} conflict(s) in the parsing tables:\n"
        :: (t.conflicts.toList.zipIdx 1).flatMap fun (c, number) => conflictLines m c number)

end Table

end ShiftReduce
