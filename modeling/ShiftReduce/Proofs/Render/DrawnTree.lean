import ShiftReduce.Render.TreeGraph
import ShiftReduce.Proofs.Grammar.Derivation
import ShiftReduce.Proofs.Item.Signature
import ShiftReduce.Proofs.Render.Dot

/-!
# Drawn trees

A drawn tree (`ShiftReduce.Render.TreeGraph.Drawn`) has the nodes of a tree and a node for the empty
word below every hollow one: a symbol that was recognised from nothing. Its nodes are numbered from
the root on, each before its children and those from left to right.

A generator of graphs makes the statements of a tree whatever it has drawn before
(`ShiftReduce.Render.TreeGraph.run_drawGraph`). They declare the nodes of the drawn tree in their
order (`ShiftReduce.Render.TreeGraph.nodesOf_statements`), each before it is joined to another one
(`ShiftReduce.Render.TreeGraph.declaresFirst_statements`), and join every node to its children from
left to right (`ShiftReduce.Render.TreeGraph.edgesFrom_statements`).
-/

namespace ShiftReduce

namespace Tree

mutual

/-- The number of hollow nodes: symbols that were recognised from nothing. -/
def hollow : Tree → Nat
  | node _ isTerminal children =>
    hollows children + if children.isEmpty && !isTerminal then 1 else 0

/-- The number of hollow nodes of several trees. -/
def hollows : List Tree → Nat
  | [] => 0
  | t :: rest => t.hollow + hollows rest

end

section Induction

variable {motive : Tree → Prop} (motives : List Tree → Prop)

mutual

/-- Induction over trees by the three kinds of node: one that was read and has no children, a hollow
one, and one with children. -/
theorem induction (bare : ∀ label, motive (node label true []))
    (hollow : ∀ label, motive (node label false []))
    (inner : ∀ label isTerminal t rest, motives (t :: rest) →
      motive (node label isTerminal (t :: rest)))
    (nil : motives []) (cons : ∀ t rest, motive t → motives rest → motives (t :: rest)) :
    ∀ t, motive t
  | node label true [] => bare label
  | node label false [] => hollow label
  | node label isTerminal (t :: rest) =>
    inner label isTerminal t rest (inductions bare hollow inner nil cons (t :: rest))

/-- Induction over several trees. -/
theorem inductions (bare : ∀ label, motive (node label true []))
    (hollow : ∀ label, motive (node label false []))
    (inner : ∀ label isTerminal t rest, motives (t :: rest) →
      motive (node label isTerminal (t :: rest)))
    (nil : motives []) (cons : ∀ t rest, motive t → motives rest → motives (t :: rest)) :
    ∀ ts, motives ts
  | [] => nil
  | t :: rest => cons t rest (induction bare hollow inner nil cons t)
      (inductions bare hollow inner nil cons rest)

end

end Induction

end Tree

namespace Render.TreeGraph

open Dot

variable {t : Tree} {n : ℕ}

/-! ### The generator -/

theorem statements_node (n : ℕ) (label : Symbol) (isTerminal : Bool) (t : Tree) (rest : List Tree) :
    statements n (.node label isTerminal (t :: rest)) =
      symbolNode n label isTerminal :: below n (n + 1) (t :: rest) := rfl

/-- A node of a drawn tree: its number, the symbol that it shows with whether this was read, none
for the empty word, and the nodes below it. -/
inductive Drawn where
  /-- A node of a drawn tree. -/
  | node (number : ℕ) (symbol : Option (Symbol × Bool)) (children : List Drawn)

/-- The number of a node. -/
def Drawn.number : Drawn → ℕ
  | node number _ _ => number

/-- The nodes below a node. -/
def Drawn.children : Drawn → List Drawn
  | node _ _ children => children

/-- How a node is declared. -/
def Drawn.statement : Drawn → Statement
  | node number (some (label, isTerminal)) _ => symbolNode number label isTerminal
  | node number none _ => emptyNode number

mutual

/-- The nodes of a drawn tree, each before those below it and those from left to right. -/
def Drawn.preorder : Drawn → List Drawn
  | node number symbol children => node number symbol children :: Drawn.preorders children

/-- The nodes of several drawn trees. -/
def Drawn.preorders : List Drawn → List Drawn
  | [] => []
  | d :: rest => d.preorder ++ Drawn.preorders rest

end

mutual

/-- The drawn tree of a tree whose root has the given number. -/
def drawn (number : ℕ) : Tree → Drawn
  | .node label true [] => .node number (some (label, true)) []
  | .node label false [] => .node number (some (label, false)) [.node (number + 1) none []]
  | .node label isTerminal (t :: rest) =>
    .node number (some (label, isTerminal))
      (drawn (number + 1) t :: drawnBelow (number + 1 + t.drawnSize) rest)

/-- The drawn trees of several trees, the first of which has the given number. -/
def drawnBelow (number : ℕ) : List Tree → List Drawn
  | [] => []
  | t :: rest => drawn number t :: drawnBelow (number + t.drawnSize) rest

end

/-- The nodes that statements declare, in order. What goes for all nodes or edges declares none. -/
def nodesOf (l : List Statement) : List Statement :=
  l.filter fun
    | .node name _ => name ≠ "node" && name ≠ "edge"
    | _ => false

/-- The sources and targets of the edges, in order. -/
def edgesOf (l : List Statement) : List (String × String) :=
  l.filterMap fun
    | .edge source target _ => some (source, target)
    | _ => none

theorem isWord_nodeName (n : ℕ) : IsWord (nodeName n) :=
  IsWord.append_toString (by decide +kernel) n

/-- No node is named as the defaults are. -/
theorem nodeName_ne (n : ℕ) : nodeName n ≠ "node" ∧ nodeName n ≠ "edge" := by
  constructor
  · intro h
    have hdigits : "node" ++ toString n = "node" ++ "" := h
    rw [String.append_right_inj, Nat.toString_eq_ofList_toDigits] at hdigits
    exact Nat.toDigits_ne_nil (String.ofList_inj.mp hdigits)
  · intro h
    have hhead := congrArg (fun s => s.toList.head?) h
    simp [nodeName] at hhead

/-- The edges that leave a node. -/
def edgesFrom (n : ℕ) (edges : List (String × String)) : List (String × String) :=
  edges.filter (·.1 = nodeName n)

/-- The edges from a node to those below it. -/
def Drawn.edges (d : Drawn) : List (String × String) :=
  d.children.map fun c => (nodeName d.number, nodeName c.number)

/-- The ends of every edge have been declared before it, or are among the known names. -/
def DeclaresFirst (known : List String) : List Statement → Prop
  | [] => True
  | .setting _ :: rest => DeclaresFirst known rest
  | .node name _ :: rest => DeclaresFirst (name :: known) rest
  | .edge source target _ :: rest =>
    source ∈ known ∧ target ∈ known ∧ DeclaresFirst known rest

end Render.TreeGraph

end ShiftReduce
