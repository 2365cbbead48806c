import ShiftReduce.Render.Dot
import ShiftReduce.Run.Tree

/-!
# The graph of a parse tree

The nodes are numbered from zero from the root on, a node before its children and the children
from left to right. Symbols that were read are boxes and the others ellipses. A symbol that was
recognised from nothing gets a node of its own for the empty word below it, which takes the next
number. The edge to a child comes after everything below the child.

A generator of graphs keeps a counter for the next number (`ShiftReduce.Render.TreeGraph.draw`). It
sets the counter to zero for every tree, so it may be used for any number of them.
-/

namespace ShiftReduce

mutual

/-- How many nodes the graph of a tree has. -/
def Tree.drawnSize : Tree → Nat
  | .node _ isTerminal [] => if isTerminal then 1 else 2
  | .node _ _ (t :: rest) => 1 + (t.drawnSize + Tree.drawnSizes rest)

/-- How many nodes the graphs of several trees have. -/
def Tree.drawnSizes : List Tree → Nat
  | [] => 0
  | t :: rest => t.drawnSize + Tree.drawnSizes rest

end

namespace Render

open Dot

namespace TreeGraph

/-- The name of a node by its number. -/
def nodeName (number : Nat) : String :=
  "node" ++ toString number

/-- The node of a symbol. -/
def symbolNode (number : Nat) (label : Symbol) (isTerminal : Bool) : Statement :=
  .node (nodeName number)
    (if isTerminal then
      [("label", .text label), ("shape", .word "box"), ("style", .word "filled"),
       ("fillcolor", .text "#e3f2fd"), ("color", .text "#1976d2"),
       ("fontname", .text "Courier New")]
    else
      [("label", .text label), ("shape", .word "ellipse"), ("style", .word "filled"),
       ("fillcolor", .text "#e8f5e8"), ("color", .text "#388e3c")])

/-- The node of the empty word. -/
def emptyNode (number : Nat) : Statement :=
  .node (nodeName number) [("label", .text emptyWord), ("shape", .word "plaintext")]

/-- The edge from a node to a child. -/
def childEdge (parent child : Nat) : Statement :=
  .edge (nodeName parent) (nodeName child) []

mutual

/-- The statements of a tree whose root has the given number. -/
def statements (number : Nat) : Tree → List Statement
  | .node label isTerminal [] =>
    symbolNode number label isTerminal
      :: (if isTerminal then [] else [emptyNode (number + 1), childEdge number (number + 1)])
  | .node label isTerminal (t :: rest) =>
    symbolNode number label isTerminal :: (statements (number + 1) t
      ++ childEdge number (number + 1) :: below number (number + 1 + t.drawnSize) rest)

/-- The statements of the children of the node `parent`, the first of which has the given
number. -/
def below (parent number : Nat) : List Tree → List Statement
  | [] => []
  | t :: rest =>
    statements number t ++ childEdge parent number :: below parent (number + t.drawnSize) rest

end

/-- What goes for the whole graph. -/
def defaults : List Statement :=
  [.setting ("rankdir", .word "TB"),
   .node "node" [("fontname", .text "Arial"), ("fontsize", .word "12")],
   .node "edge" [("fontsize", .word "9"), ("color", .text "#333333")],
   .setting ("bgcolor", .word "white"),
   .setting ("nodesep", .word "0.4"),
   .setting ("ranksep", .word "0.6")]

/-! ### Drawing with a counter -/

/-- Takes the next number. -/
def next : StateM Nat Nat :=
  modifyGet fun number => (number, number + 1)

mutual

/-- Draws a tree with the next numbers. -/
def draw : Tree → StateM Nat (List Statement)
  | .node label isTerminal children => do
    let number ← next
    let empty ←
      if children.isEmpty && !isTerminal then do
        let below ← next
        pure [emptyNode below, childEdge number below]
      else pure []
    let rest ← drawBelow number children
    return symbolNode number label isTerminal :: (empty ++ rest)

/-- Draws the children of a node. The number of a child is the next one before it is drawn. -/
def drawBelow (parent : Nat) : List Tree → StateM Nat (List Statement)
  | [] => return []
  | t :: rest => do
    let child ← get
    let first ← draw t
    let later ← drawBelow parent rest
    return first ++ childEdge parent child :: later

end

end TreeGraph

/-- The graph of a parse tree. -/
def treeGraph (t : Tree) (title : String) : Graph where
  title
  statements := TreeGraph.defaults ++ TreeGraph.statements 0 t

/-- The graph that stands for a missing tree. -/
def noTreeGraph (title : String) : Graph where
  title
  statements :=
    [.setting ("rankdir", .word "TB"),
     .node "node" [("fontname", .text "Arial")],
     .node "empty" [("label", .text "Parse tree is empty"), ("shape", .word "box"),
       ("color", .word "red")]]

/-- Draws the graph of a parse tree, if there is one, whatever number the counter is at. -/
def TreeGraph.drawGraph (t : Option Tree) (title : String) : StateM Nat Graph :=
  match t with
  | none => return noTreeGraph title
  | some t => do
    set 0
    let below ← draw t
    return ⟨title, defaults ++ below⟩

end Render

end ShiftReduce
