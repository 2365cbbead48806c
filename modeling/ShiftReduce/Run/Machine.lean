import ShiftReduce.Run.Tree
import ShiftReduce.Table.Basic

/-!
# The shift-reduce machine

A machine has a stack, the input that is left with the end marker behind it, and, if a tree is
wanted, the trees of the symbols on the stack. The bottom of the stack is the start state of the
automaton; above it every frame holds a symbol and the state that was entered with it. Stack and
trees are lists with the top first.

`Machine.step` looks up the action for the state on top and the next symbol and carries it out.
The end marker counts only where it is the last symbol: before other input it has no action. A
table written by hand can lead a machine astray in two ways for which there is no outcome: it may
shift the end marker, after which there is no next symbol, and it may reduce a production that
the grammar does not have. These are faults.
-/

namespace ShiftReduce

/-- A symbol on the stack with the state entered with it. -/
structure Frame where
  /-- The symbol. -/
  symbol : Symbol
  /-- The state entered with it. -/
  state : Int
deriving DecidableEq

/-- The state of a machine. -/
structure Machine where
  /-- The stack above the start state, the top first. -/
  frames : List Frame
  /-- The input that is left, the end marker included. -/
  input : List Symbol
  /-- The trees of the symbols on the stack, the top first, if trees are wanted. -/
  trees : List Tree := []

/-- What a step does. -/
inductive Move where
  /-- Move the next symbol to the stack. -/
  | shift (target : Int)
  /-- Undo a production, named by its number in the table. -/
  | reduce (number : Int) (production : Production)
  /-- Stop with success. -/
  | accept
  /-- Stop at a symbol for which there is no action. -/
  | reject (token : Symbol)
deriving DecidableEq

namespace Move

/-- The entry of the table that a move carries out. -/
def action? : Move → Option Action
  | shift target => some (.shift target)
  | reduce number _ => some (.reduce number)
  | accept => some .accept
  | reject _ => none

/-- The production that a move undoes. -/
def production? : Move → Option Production
  | reduce _ p => some p
  | _ => none

/-- The move in words. -/
def text : Move → String
  | shift target => s!"Shift {target}"
  | reduce _ p => "Reduce: " ++ p.text
  | accept => "Accept"
  | reject token => s!"Error: Unexpected token '{token}'"

end Move

/-- Why a run ends without success. -/
inductive Failure where
  /-- There is no action for the symbol in the state. -/
  | unexpectedToken (token : Symbol) (state : Int)
  /-- After a reduction there is no state to go to. -/
  | gotoMissing (lhs : Symbol) (state : Int)
  /-- The stack holds fewer symbols than the production to undo. -/
  | stackUnderflow
  /-- The run has taken as many steps as it may. -/
  | stepLimit (limit : Int)
deriving DecidableEq

namespace Failure

/-- The name of the sort of failure. -/
def name : Failure → String
  | unexpectedToken _ _ => "unexpected_token"
  | gotoMissing _ _ => "goto_missing"
  | stackUnderflow => "stack_underflow"
  | stepLimit _ => "step_limit_exceeded"

/-- The message of a failure. -/
def message : Failure → String
  | unexpectedToken token state => s!"Unexpected token '{token}' in state {state}"
  | gotoMissing lhs state => s!"No GOTO for non-terminal {lhs} in state {state}"
  | stackUnderflow => "Stack underflow during reduce"
  | stepLimit limit => s!"Max steps exceeded ({limit})"

end Failure

/-- Why a run has no outcome. -/
inductive Fault where
  /-- No input is left, not even the end marker. -/
  | inputExhausted
  /-- The table reduces a production that the grammar does not have. -/
  | unknownProduction (number : Int)
deriving DecidableEq

/-- What a step leads to. -/
inductive Machine.Next where
  /-- The machine goes on. -/
  | go (m : Machine)
  /-- The input is accepted. -/
  | accept
  /-- The run fails. -/
  | fail (f : Failure)

namespace Machine

/-- The machine before an input. -/
def start (tokens : List Symbol) : Machine :=
  { frames := [], input := tokens ++ [endMarker] }

/-- The state on top of some frames, below which is the start state of an automaton. -/
def topState (a : Automaton) : List Frame → Int
  | [] => a.startState
  | f :: _ => f.state

/-- The action for a state and a symbol with some input behind it. -/
def lookUp (t : Table) (state : Int) (token : Symbol) (rest : List Symbol) : Option Action :=
  if token = endMarker ∧ rest ≠ [] then none else t.action.get? ⟨state, token⟩

/-- The machine after a symbol is moved to the stack. -/
def shift (keepTrees : Bool) (m : Machine) (token : Symbol) (rest : List Symbol)
    (target : Int) : Machine where
  frames := ⟨token, target⟩ :: m.frames
  input := rest
  trees := if keepTrees then .leaf token :: m.trees else m.trees

/-- Undoes a production: as many symbols as it has leave the stack, and its left-hand side takes
their place. -/
def reduce (t : Table) (a : Automaton) (keepTrees : Bool) (m : Machine) (p : Production) :
    Next :=
  let size := p.rhs.length
  if m.frames.length < size then .fail .stackUnderflow
  else
    let below := m.frames.drop size
    match t.goto.get? ⟨topState a below, p.lhs⟩ with
    | none => .fail (.gotoMissing p.lhs (topState a below))
    | some target =>
      .go {
        frames := ⟨p.lhs, target⟩ :: below
        input := m.input
        trees :=
          if keepTrees then .branch p.lhs (m.trees.take size).reverse :: m.trees.drop size
          else m.trees }

/-- One step: what it does and what it leads to. -/
def step (t : Table) (a : Automaton) (keepTrees : Bool) (m : Machine) :
    Except Fault (Move × Next) :=
  match m.input with
  | [] => .error .inputExhausted
  | token :: rest =>
    match lookUp t (topState a m.frames) token rest with
    | none => .ok (.reject token, .fail (.unexpectedToken token (topState a m.frames)))
    | some (.shift target) => .ok (.shift target, .go (m.shift keepTrees token rest target))
    | some (.reduce number) =>
      match a.grammar.production? number with
      | none => .error (.unknownProduction number)
      | some p => .ok (.reduce number p, m.reduce t a keepTrees p)
    | some .accept => .ok (.accept, .accept)

/-- The tree of an accepted input: the one that is left or, if there is not just one, the fresh
start symbol over all of them. -/
def finalTree (g : Augmented) (m : Machine) : Tree :=
  match m.trees with
  | [t] => t
  | trees => .branch g.top trees.reverse

end Machine

end ShiftReduce
