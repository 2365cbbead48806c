import ShiftReduce.Automaton.Collection

/-!
# The automaton of a grammar

The automaton is the canonical collection of item sets of an augmented grammar, with the first state
to start in. It reads symbols of both kinds: a terminal when one is shifted, a non-terminal when one
has been recognised. A state accepts when it holds the production of the fresh start symbol with the
dot at the end.
-/

namespace ShiftReduce

/-- The states and moves of an augmented grammar. -/
structure Automaton where
  /-- The grammar whose items make up the states. -/
  grammar : Augmented
  /-- The states, by number. -/
  states : List State
  /-- The moves in order of discovery. -/
  transitions : List Transition
  /-- The number of the state to start in. -/
  startState : Int

namespace Automaton

/-- The number of the first state, which is the closure of the item to begin with. -/
def start : Nat := 0

/-- The automaton of an augmented grammar. -/
def ofAugmented (g : Augmented) : Automaton :=
  let c := Collection.canonical g
  ⟨g, c.states.toList, c.transitions.toList, start⟩

/-- The automaton of a grammar, or what the grammar lacks to have one. -/
def ofGrammar (g : Grammar) (settings : Settings) : Except (List Problem) Automaton :=
  (Augmented.ofGrammar g settings).map ofAugmented

/-- The state with a number, which counts from the end if it is negative. -/
def state? (m : Automaton) (id : Int) : Option State :=
  (signedIndex? m.states.length id).bind fun k => m.states[k]?

/-- The moves that leave a state, in order of discovery. -/
def movesFrom (m : Automaton) (id : Nat) : List Transition :=
  m.transitions.filter (·.source = id)

/-- The item of a finished input. -/
def acceptItem : Item := ⟨0, 1⟩

/-- The numbers of the accepting states. -/
def accepting (m : Automaton) : List Nat :=
  (m.states.filter (acceptItem ∈ ·.items)).map (·.id)

/-- The automaton in words: its states with their items, and its moves. -/
def text (m : Automaton) : String :=
  "\n".intercalate
    ([s!"LR(0) Automaton with {m.states.length} states",
      s!"Start state: {m.startState}",
      "\nStates:"]
      ++ m.states.flatMap (fun s =>
        s!"State {s.id}:" :: s.items.map fun i => "  " ++ m.grammar.itemText i)
      ++ ["\nTransitions:"]
      ++ m.transitions.map fun t => s!"  GOTO({t.source}, {t.symbol}) = {t.target}")

end Automaton

end ShiftReduce
