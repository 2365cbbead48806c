import ShiftReduce.Item.Signed
import ShiftReduce.Order.Association
import ShiftReduce.Table.Basic

/-!
# Generators of tables

A generator keeps a table from call to call. An action may be added to the table at any time, and a
call for the table of the automaton clears what is there and fills it state by state: first the
moves of a state, each of which shifts or is a state to go to, then its completed items.

A generator is given an automaton that anyone may have put together, a *draft*. Its states may have
any numbers and its items may be unreadable, and of several moves from a state over one symbol the
last one counts, in the place of the first. A call fails when it comes to read an item that is
unreadable. What it has done to the table by then stays done; an action whose conflict cannot be
told of is not added at all.
-/

namespace ShiftReduce

/-! ### Drafts -/

/-- A state of a draft. -/
structure DraftState where
  /-- The number of the state. -/
  id : Int
  /-- Its items. -/
  items : List SignedItem

/-- A move of a draft. -/
structure DraftMove where
  /-- The number of the state that the move leaves. -/
  source : Int
  /-- The symbol that is read. -/
  symbol : Symbol
  /-- The number of the state that the move leads to. -/
  target : Int

/-- An automaton that may have been put together by hand. -/
structure Draft where
  /-- The grammar. -/
  grammar : Augmented
  /-- The states in order. -/
  states : List DraftState
  /-- The moves in order of discovery. -/
  transitions : List DraftMove

namespace Draft

/-- The moves by the states that they leave and by their symbols, in order of discovery. -/
def lookup (m : Draft) : List (Int × List (Symbol × Int)) :=
  m.transitions.foldl (fun rows t =>
    let row := (rows.lookup t.source).getD []
    Association.put rows t.source (Association.put row t.symbol t.target)) []

/-- The moves that leave a state: each symbol with the state that it leads to. -/
def row (m : Draft) (id : Int) : List (Symbol × Int) :=
  (m.lookup.lookup id).getD []

/-- The state at a place, which counts from the end if it is negative. -/
def state? (m : Draft) (place : Int) : Option DraftState :=
  (signedIndex? m.states.length place).bind fun k => m.states[k]?

end Draft

/-- A state as part of a draft. -/
def State.draft (s : State) : DraftState :=
  ⟨s.id, s.items.map .ofItem⟩

/-- An automaton as a draft. -/
def Automaton.draft (m : Automaton) : Draft where
  grammar := m.grammar
  states := m.states.map State.draft
  transitions := m.transitions.map fun t => ⟨t.source, t.symbol, t.target⟩

namespace Table

/-! ### Adding an action -/

/-- The items of a state that justify an action on a symbol, if none of those that are looked at is
unreadable. -/
def justifying? (g : Augmented) (s : DraftState) (x : Symbol) : Action → Option (List SignedItem)
  | .shift _ => filter? (fun i => (g.nextSymbol? i).map fun next => decide (next = some x)) s.items
  | .reduce p => filter? (fun i => if i.production = p then g.isComplete? i else some false) s.items
  | .accept => filter? (fun i => if i.production = 0 then g.isComplete? i else some false) s.items

/-- The texts of the items that justify an action. -/
def justification? (g : Augmented) (s : DraftState) (x : Symbol) (a : Action) :
    Option (List String) := do
  (← justifying? g s x a).mapM g.itemText?

/-- The conflict between the action in a cell and another one, if it can be told of. -/
def conflictBetween? (g : Augmented) (s : DraftState) (x : Symbol) (existing incoming : Action) :
    Option Conflict := do
  return {
    state := s.id
    symbol := x
    existing
    incoming
    kind := .of existing incoming
    existingItems := ← justification? g s x existing
    incomingItems := ← justification? g s x incoming }

/-- An action that is added for a cell. -/
structure Addition where
  /-- The state of the cell. -/
  state : DraftState
  /-- The symbol of the cell. -/
  symbol : Symbol
  /-- The action. -/
  action : Action

/-- The cell that an action is added for. -/
def Addition.cell (w : Addition) : Cell :=
  ⟨w.state.id, w.symbol⟩

/-- The table with an action added: in its cell if that is empty, and as a conflict if the cell
holds another action. If the conflict cannot be told of, the call fails and leaves the table as it
was. -/
def add? (g : Augmented) (t : Table) (w : Addition) : Except Table Table :=
  match t.action.get? w.cell with
  | none => .ok { t with action := t.action.put w.cell w.action }
  | some existing =>
    if existing = w.action then .ok t
    else
      match conflictBetween? g w.state w.symbol existing w.action with
      | some c => .ok { t with conflicts := t.conflicts.push c }
      | none => .error t

/-! ### Filling a table

A call that fails has the table that it leaves as its error. -/

/-- Clears a table. -/
def clear (t : Table) : Table :=
  { t with action := {}, goto := {}, conflicts := #[] }

/-- Enters a move of a state: a terminal is shifted, and after any other symbol but the fresh start
symbol there is a state to go to. -/
def enterMove? (m : Draft) (s : DraftState) (t : Table) (move : Symbol × Int) :
    Except Table Table :=
  if move.1 ∈ m.grammar.terminals then add? m.grammar t ⟨s, move.1, .shift move.2⟩
  else if move.1 ≠ m.grammar.top then .ok { t with goto := t.goto.put ⟨s.id, move.1⟩ move.2 }
  else .ok t

/-- Enters an item of a state, if it is completed: the production of the fresh start symbol accepts
before the end marker, and any other one is reduced before every lookahead. -/
def enterItem? (m : Draft) (s : DraftState) (t : Table) (i : SignedItem) : Except Table Table :=
  match m.grammar.production? i.production with
  | none => .error t
  | some p =>
    if p.rhs.length ≤ i.dot then
      if p.lhs = m.grammar.top then add? m.grammar t ⟨s, endMarker, .accept⟩
      else m.grammar.lookaheads.foldlM (fun t x => add? m.grammar t ⟨s, x, .reduce p.id⟩) t
    else .ok t

/-- Enters a state: its moves, then its items. -/
def enterState? (m : Draft) (t : Table) (s : DraftState) : Except Table Table := do
  let t ← (m.row s.id).foldlM (enterMove? m s) t
  s.items.foldlM (enterItem? m s) t

/-- Clears a table and fills it from an automaton. -/
def generate? (m : Draft) (t : Table) : Except Table Table :=
  m.states.foldlM (enterState? m) t.clear

/-! ### Calls -/

/-- A call of a generator. -/
inductive Call where
  /-- An action is added. -/
  | add (w : Addition)
  /-- The table is cleared. -/
  | clear
  /-- The table of the automaton is asked for. -/
  | generate

/-- What a call makes of the table that a generator keeps. -/
def call? (m : Draft) (t : Table) : Call → Except Table Table
  | .add w => add? m.grammar t w
  | .clear => .ok t.clear
  | .generate => generate? m t

/-- The table that is there after a call, whether it failed or not. -/
def left : Except Table Table → Table
  | .ok t => t
  | .error t => t

/-- The table that a generator of an automaton keeps after some calls. -/
def afterCalls (m : Draft) (calls : List Call) : Table :=
  calls.foldl (fun t k => left (call? m t k)) {}

end Table

end ShiftReduce
