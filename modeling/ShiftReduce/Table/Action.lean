import ShiftReduce.Grammar.Symbol

/-!
# Actions and conflicts

An action says what the machine does in a state on a symbol. Where two different actions want
the same cell there is a conflict: the one that came first is kept and the other rejected, and
both are recorded with the items that justify them.
-/

namespace ShiftReduce

/-- What a machine can do next. The numbers are integers, since a table written by hand may use
any. -/
inductive Action where
  /-- Move the next symbol to the stack and go to the state of this number. -/
  | shift (target : Int)
  /-- Undo the production of this number on the stack. -/
  | reduce (production : Int)
  /-- Stop with success. -/
  | accept
deriving DecidableEq

namespace Action

/-- The action in words. -/
def text : Action → String
  | shift target => s!"shift {target}"
  | reduce production => s!"reduce {production}"
  | accept => "accept"

/-- The name of the sort of action. -/
def name : Action → String
  | shift _ => "shift"
  | reduce _ => "reduce"
  | accept => "accept"

/-- Whether the action is a shift. -/
def isShift : Action → Bool
  | shift _ => true
  | _ => false

end Action

/-- The sorts of conflict. -/
inductive ConflictKind where
  /-- One of the two actions is a shift. -/
  | shiftReduce
  /-- Neither action is a shift. -/
  | reduceReduce
deriving DecidableEq

namespace ConflictKind

/-- The name of the sort of conflict. -/
def name : ConflictKind → String
  | shiftReduce => "shift/reduce"
  | reduceReduce => "reduce/reduce"

/-- The sort of conflict between two actions. -/
def of (a b : Action) : ConflictKind :=
  if a.isShift || b.isShift then shiftReduce else reduceReduce

end ConflictKind

/-- Two different actions for one cell. -/
structure Conflict where
  /-- The state of the cell. -/
  state : Int
  /-- The symbol of the cell. -/
  symbol : Symbol
  /-- The action that is kept. -/
  existing : Action
  /-- The action that is rejected. -/
  incoming : Action
  /-- The sort of conflict. -/
  kind : ConflictKind
  /-- The items that justify the action that is kept, as texts. -/
  existingItems : List String := []
  /-- The items that justify the action that is rejected, as texts. -/
  incomingItems : List String := []
deriving DecidableEq

/-- The conflict in words. -/
def Conflict.text (c : Conflict) : String :=
  c.kind.name ++ s!" conflict in state {c.state} on symbol '{c.symbol}': " ++
    s!"kept {c.existing.text}, rejected {c.incoming.text}"

end ShiftReduce
