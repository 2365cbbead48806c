import ShiftReduce.Item.Closure

/-!
# Collections of item sets

A collection numbers item sets from zero in the order in which they are registered, and records
the moves between them. An item set is known by its signature: registering items with the
signature of a state gives that state, and any other items become the next one.
-/

namespace ShiftReduce

/-- A numbered item set. -/
structure State where
  /-- The number of the state. -/
  id : Nat
  /-- The items, as they were registered. -/
  items : List Item
  /-- The signature of the items. -/
  signature : String
deriving DecidableEq

/-- A move from one state to another over a symbol. -/
structure Transition where
  /-- The number of the state it leaves. -/
  source : Nat
  /-- The symbol it moves over. -/
  symbol : Symbol
  /-- The number of the state it enters. -/
  target : Nat
deriving DecidableEq

/-- The states registered so far and the moves between them. -/
structure Collection where
  /-- The states in order of registration. -/
  states : Array State := #[]
  /-- The moves in order of discovery. -/
  transitions : Array Transition := #[]

namespace Collection

/-- The state with the signature of some items. -/
def find? (c : Collection) (items : List Item) : Option State :=
  let signature := Item.signature items
  c.states.find? (·.signature = signature)

/-- The state that some items would become if they are new. -/
def nextState (c : Collection) (items : List Item) : State :=
  ⟨c.states.size, items, Item.signature items⟩

/-- The state of some items, which is made if there is none, and the collection that has it. -/
def register (c : Collection) (items : List Item) : Collection × State :=
  match c.find? items with
  | some s => (c, s)
  | none => ({ c with states := c.states.push (c.nextState items) }, c.nextState items)

/-- Records a move. -/
def connect (c : Collection) (t : Transition) : Collection :=
  { c with transitions := c.transitions.push t }

/-- Registers the goto of a state over a symbol, and the move to it. -/
def move (g : Augmented) (s : State) (c : Collection) (x : Symbol) : Collection :=
  let (c, target) := c.register (g.goto s.items x)
  c.connect ⟨s.id, x, target.id⟩

/-- Registers every goto of a state, in the order of the symbols in its items. -/
def visit (g : Augmented) (c : Collection) (s : State) : Collection :=
  (g.symbolsAfterDot s.items).foldl (move g s) c

/-- Visits the states from number `k` on, those that a visit adds included; at most `rounds` of
them. -/
def explore (g : Augmented) : (rounds : Nat) → (k : Nat) → Collection → Collection
  | 0, _, c => c
  | rounds + 1, k, c =>
    match c.states[k]? with
    | none => c
    | some s => explore g rounds (k + 1) (c.visit g s)

/-- The collection of a grammar: the closure of the item with the dot before the start symbol,
and whatever gotos reach from there. Different states have different sets of items of the
grammar, so there are no more of them than such sets. -/
def canonical (g : Augmented) : Collection :=
  explore g (Nat.pow 2 g.items.length) 0 (({} : Collection).register (g.closure [⟨0, 0⟩])).1

end Collection

end ShiftReduce
