import ShiftReduce.Automaton.Basic
import Std.Data.TreeMap

/-!
# Builders of automata

A builder stores numbered item sets from call to call, with an index of them by their signatures
and the number of the next one. Items may be registered at any time, and a build begins anew: it
registers the closure to begin with, visits one state after the other, and has every state that is
new on the way wait for its visit.
-/

namespace ShiftReduce

/-- The states stored since the last build began, with the moves that it recorded. -/
structure Builder where
  /-- The states in order of registration. -/
  states : Array State := #[]
  /-- The moves in order of discovery. -/
  transitions : Array Transition := #[]
  /-- The numbers of the states by their signatures. -/
  index : Std.TreeMap String Nat := {}
  /-- The number of the next state. -/
  nextId : Nat := 0

namespace Builder

/-- Forgets all states and moves. -/
def reset (b : Builder) : Builder :=
  { b with states := #[], transitions := #[], index := {}, nextId := 0 }

/-- The state that some items become if they are new. -/
def nextState (b : Builder) (items : List Item) : State :=
  ⟨b.nextId, items, Item.signature items⟩

/-- Stores a state at the end and in the index. -/
def store (b : Builder) (s : State) : Builder :=
  { b with
    states := b.states.push s
    index := b.index.insert s.signature s.id
    nextId := b.nextId + 1 }

/-- Records a move. -/
def connect (b : Builder) (t : Transition) : Builder :=
  { b with transitions := b.transitions.push t }

/-- What becomes of some items that are registered. -/
structure Registered where
  /-- The builder afterwards. -/
  builder : Builder
  /-- The state of the items. -/
  state : State
  /-- Whether the state was made for them. -/
  isNew : Bool

/-- The state that the index has for some items, which is made if there is none. There is no result
if the index has a number that no state has. -/
def register (b : Builder) (items : List Item) : Option Registered :=
  match b.index[Item.signature items]? with
  | some id => b.states[id]?.map fun s => ⟨b, s, false⟩
  | none => some ⟨b.store (b.nextState items), b.nextState items, true⟩

/-! ### Building an automaton -/

/-- A builder at work, with the states that it has yet to visit. -/
structure Exploration where
  /-- The builder. -/
  builder : Builder
  /-- The states that wait. -/
  waiting : List State

/-- Registers the goto of a state over a symbol, and the move to it; if the goto is a new state, it
waits to be visited. -/
def move (g : Augmented) (s : State) (e : Exploration) (x : Symbol) : Option Exploration :=
  let items := g.goto s.items x
  if items = [] then
    some e
  else
    (e.builder.register items).map fun r =>
      ⟨r.builder.connect ⟨s.id, x, r.state.id⟩, e.waiting ++ if r.isNew then [r.state] else []⟩

/-- Registers every goto of a state, in the order of the symbols in its items. -/
def visit (g : Augmented) (e : Exploration) (s : State) : Option Exploration :=
  (g.symbolsAfterDot s.items).foldlM (move g s) e

/-- Visits the states that wait until none does; there is no result if that takes more than `rounds`
visits. -/
def explore (g : Augmented) : (rounds : Nat) → Exploration → Option Builder
  | _, ⟨b, []⟩ => some b
  | 0, ⟨_, _ :: _⟩ => none
  | rounds + 1, ⟨b, s :: waiting⟩ => (visit g ⟨b, waiting⟩ s).bind (explore g rounds)

/-- Builds the collection of a grammar anew. Different states have different sets of items of the
grammar, so no more visits are needed than there are such sets. -/
def build (g : Augmented) (b : Builder) : Option Builder :=
  (b.reset.register (g.closure [⟨0, 0⟩])).bind fun r =>
    explore g (Nat.pow 2 g.items.length) ⟨r.builder, [r.state]⟩

/-- What a builder stores as an automaton. -/
def automaton (g : Augmented) (b : Builder) : Automaton :=
  ⟨g, b.states.toList, b.transitions.toList, Automaton.start⟩

/-! ### Calls -/

/-- A call of a builder. -/
inductive Call where
  /-- Some items are registered. -/
  | register (items : List Item)
  /-- The automaton is built. -/
  | build

/-- What a call makes of a builder. -/
def call (g : Augmented) (b : Builder) : Call → Option Builder
  | .register items => (b.register items).map (·.builder)
  | .build => b.build g

/-- A builder of a grammar after some calls. -/
def afterCalls (g : Augmented) (calls : List Call) : Option Builder :=
  calls.foldlM (call g) {}

end Builder

end ShiftReduce
