import ShiftReduce.Automaton.Basic
import ShiftReduce.Render.Appearance
import ShiftReduce.Render.Dot

/-!
# The graph of an automaton

Every state is a box that shows its number and, unless the graph is compact, its first items,
with dots below them if there are more than may be shown. Accepting states have a double border
and the start state a bold one. Every move is an edge with its symbol.
-/

namespace ShiftReduce.Render

open Dot

namespace AutomatonGraph

/-- The name of the node of a state. -/
def stateName (id : Nat) : String :=
  "state" ++ toString id

/-- The lines for the items from the given place on: one for each item, until as many as may be
shown are there, and then dots and no more. -/
def itemLines (limit : Int) (g : Augmented) (place : Nat) : List Item → List String
  | [] => []
  | i :: rest =>
    if limit ≤ place then ["..."] else g.itemText i :: itemLines limit g (place + 1) rest

/-- What the box of a state shows. -/
def stateLabel (a : Appearance) (g : Augmented) (s : State) : String :=
  if a.compact then toString s.id
  else s!"State {s.id}\n" ++ "\n".intercalate (itemLines a.maxItems g 0 s.items)

/-- The node of a state. -/
def stateNode (a : Appearance) (m : Automaton) (s : State) : Statement :=
  .node (stateName s.id)
    ([("label", .text (stateLabel a m.grammar s))]
      ++ (if s.id ∈ m.accepting then [("peripheries", .word "2")] else [])
      ++ (if s.id = m.startState then [("style", .word "bold")] else []))

/-- The edge of a move. -/
def moveEdge (t : Transition) : Statement :=
  .edge (stateName t.source) (stateName t.target) [("label", .text t.symbol)]

end AutomatonGraph

/-- The graph of an automaton. -/
def automatonGraph (a : Appearance) (m : Automaton) (title : String) : Graph where
  title
  statements :=
    [.setting ("rankdir", .word "LR"),
     .node "node" [("shape", .word "box"), ("fontname", .text "Courier"), ("fontsize", .word "9")],
     .node "edge" [("fontname", .text "Arial"), ("fontsize", .word "9")]]
    ++ m.states.map (AutomatonGraph.stateNode a m)
    ++ m.transitions.map AutomatonGraph.moveEdge

end ShiftReduce.Render
