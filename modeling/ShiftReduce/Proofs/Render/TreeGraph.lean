import ShiftReduce.Proofs.Render.DrawnTree

/-!
# The graph of a parse tree shows the tree

The graph of a tree declares the nodes of the drawn tree and joins them to their children, and has
no other nodes and edges (`ShiftReduce.Render.TreeGraph.Shows`).

The tree can be told from the text of its graph (`ShiftReduce.Render.TreeGraph.decode`). A reader of
the statements keeps the nodes that have not been joined to their parents yet, the last one first.
The statements of a tree leave its root in front of them, with all its children
(`ShiftReduce.Render.TreeGraph.foldlM_step_statements`). So no two trees have one text
(`ShiftReduce.Render.TreeGraph.drawGraph_shows`).
-/

namespace ShiftReduce.Render.TreeGraph

open Dot

/-! ### Telling the tree -/

/-- The symbol that a node shows, with whether it was read: none for the empty word. -/
def symbolOf (attributes : List Attribute) : Option (Option (Symbol × Bool)) :=
  match attributes.lookup "label", attributes.lookup "shape" with
  | some (.text label), some (.word "box") => some (some (label, true))
  | some (.text label), some (.word "ellipse") => some (some (label, false))
  | some (.text _), some (.word "plaintext") => some none
  | _, _ => none

/-- A node that has been declared and not joined to its parent yet, with the trees below it. -/
structure Frame where
  /-- The name of the node. -/
  name : String
  /-- The symbol that it shows, with whether this was read: none for the empty word. -/
  symbol : Option (Symbol × Bool)
  /-- The trees of the nodes that have been joined to it. -/
  children : List Tree

/-- The tree of a node, if it shows a symbol. -/
def Frame.tree? (f : Frame) : Option Tree :=
  f.symbol.map fun (label, isTerminal) => .node label isTerminal f.children

/-- What a statement does to the nodes that have not been joined to their parents, the last one
first: a node is put in front, and an edge joins the first one to the second. -/
def step : List Frame → Statement → Option (List Frame)
  | frames, .setting _ => some frames
  | frames, .node name attributes =>
    if name = "node" ∨ name = "edge" then some frames
    else (symbolOf attributes).map fun symbol => ⟨name, symbol, []⟩ :: frames
  | child :: parent :: frames, .edge source target _ =>
    if child.name = target ∧ parent.name = source then
      some (⟨parent.name, parent.symbol, parent.children ++ child.tree?.toList⟩ :: frames)
    else none
  | _, .edge _ _ _ => none

/-- The tree of some statements, if they join all nodes but one. -/
def treeOf (l : List Statement) : Option Tree :=
  match l.foldlM step [] with
  | some [root] => root.tree?
  | _ => none

/-- **The tree of a text** with the title. -/
def decode (text : String) : Option (Tree × String) :=
  (Graph.read text).bind fun g => (treeOf g.statements).map (·, g.title)

/-- The node of a tree that has been joined to all its children. -/
def frameOf (n : ℕ) (t : Tree) : Frame :=
  ⟨nodeName n, some (t.label, t.isTerminal), t.children⟩

theorem tree?_frameOf (n : ℕ) (t : Tree) : (frameOf n t).tree? = some t := by
  cases t
  rfl

theorem step_symbolNode (frames : List Frame) (n : ℕ) (label : Symbol) (isTerminal : Bool) :
    step frames (symbolNode n label isTerminal) =
      some (⟨nodeName n, some (label, isTerminal), []⟩ :: frames) := by
  have hname : ¬(nodeName n = "node" ∨ nodeName n = "edge") := not_or.mpr (nodeName_ne n)
  cases isTerminal <;> exact if_neg hname

theorem step_emptyNode (frames : List Frame) (n : ℕ) :
    step frames (emptyNode n) = some (⟨nodeName n, none, []⟩ :: frames) :=
  if_neg (not_or.mpr (nodeName_ne n))

theorem step_childEdge (frames : List Frame) (p n : ℕ) (symbol symbol' : Option (Symbol × Bool))
    (ts ts' : List Tree) :
    step (⟨nodeName n, symbol', ts'⟩ :: ⟨nodeName p, symbol, ts⟩ :: frames) (childEdge p n) =
      some (⟨nodeName p, symbol, ts ++ (Frame.tree? ⟨nodeName n, symbol', ts'⟩).toList⟩
        :: frames) :=
  if_pos ⟨rfl, rfl⟩

/-- **The statements of a tree put its root in front**, joined to all its children. -/
theorem foldlM_step_statements (t : Tree) (n : ℕ) (frames : List Frame) :
    (statements n t).foldlM step frames = some (frameOf n t :: frames) := by
  induction t using Tree.induction (fun ts => ∀ p n symbol us frames,
    (below p n ts).foldlM step (⟨nodeName p, symbol, us⟩ :: frames) =
      some (⟨nodeName p, symbol, us ++ ts⟩ :: frames)) generalizing n frames with
  | bare label => exact congrArg (Option.bind · some) (step_symbolNode frames n label true)
  | hollow label =>
    change [symbolNode n label false, emptyNode (n + 1), childEdge n (n + 1)].foldlM step frames = _
    rw [List.foldlM_cons, step_symbolNode, Option.bind_eq_bind, Option.bind_some, List.foldlM_cons,
      step_emptyNode, Option.bind_eq_bind, Option.bind_some, List.foldlM_cons, step_childEdge]
    rfl
  | inner label isTerminal t rest ih =>
    rw [statements_node, List.foldlM_cons, step_symbolNode, Option.bind_eq_bind, Option.bind_some,
      ih]
    rfl
  | nil p n symbol us frames =>
    rw [List.append_nil]
    rfl
  | cons t rest ih ihs p n symbol us frames =>
    -- the child is in front of its parent now, and the edge puts it behind the children so far
    have hedge := step_childEdge frames p n symbol (some (t.label, t.isTerminal)) us t.children
    rw [← frameOf, tree?_frameOf] at hedge
    rw [below, List.foldlM_append, ih, Option.bind_eq_bind, Option.bind_some, List.foldlM_cons,
      hedge, Option.bind_eq_bind, Option.bind_some, ihs, List.append_assoc]
    rfl

/-- The tree is told from the statements of its graph. -/
theorem treeOf_treeGraph (t : Tree) (title : String) :
    treeOf (treeGraph t title).statements = some t := by
  have hdefaults : defaults.foldlM step [] = some [] := rfl
  rw [treeOf, treeGraph, List.foldlM_append, hdefaults, Option.bind_eq_bind, Option.bind_some,
    foldlM_step_statements]
  exact tree?_frameOf 0 t

/-! ### The text of the graph -/

theorem isClean_symbolNode (n : ℕ) (label : Symbol) (isTerminal : Bool) :
    (symbolNode n label isTerminal).IsClean := by
  have hlabel : IsWord "label" := by decide +kernel
  refine ⟨isWord_nodeName n, ?_⟩
  cases isTerminal <;> exact List.forall_mem_cons.mpr ⟨⟨hlabel, trivial⟩, by decide +kernel⟩

theorem isClean_emptyNode (n : ℕ) : (emptyNode n).IsClean :=
  ⟨isWord_nodeName n, by decide +kernel⟩

theorem isClean_childEdge (p n : ℕ) : (childEdge p n).IsClean :=
  ⟨isWord_nodeName p, isWord_nodeName n, List.forall_mem_nil _⟩

theorem isClean_statements (t : Tree) (n : ℕ) : ∀ x ∈ statements n t, x.IsClean := by
  induction t using Tree.induction (fun ts => ∀ p n, ∀ x ∈ below p n ts, x.IsClean)
    generalizing n with
  | bare label => exact List.forall_mem_singleton.mpr (isClean_symbolNode n label true)
  | hollow label =>
    exact List.forall_mem_cons.mpr ⟨isClean_symbolNode n label false, List.forall_mem_cons.mpr
      ⟨isClean_emptyNode _, List.forall_mem_singleton.mpr (isClean_childEdge _ _)⟩⟩
  | inner label isTerminal t rest ih =>
    exact List.forall_mem_cons.mpr ⟨isClean_symbolNode n label isTerminal, ih n (n + 1)⟩
  | nil p n x hx => exact absurd hx List.not_mem_nil
  | cons t rest ih ihs p n x hx =>
    rw [below, List.mem_append, List.mem_cons] at hx
    rcases hx with hx | rfl | hx
    · exact ih n x hx
    · exact isClean_childEdge p n
    · exact ihs p _ x hx

theorem isClean_treeGraph (t : Tree) (title : String) : (treeGraph t title).IsClean := by
  have hdefaults : ∀ x ∈ defaults, x.IsClean := by decide +kernel
  exact List.forall_mem_append.mpr ⟨hdefaults, isClean_statements t 0⟩

/-- **The tree and the title are told from the text of the graph.** -/
theorem decode_write (t : Tree) (title : String) :
    decode (treeGraph t title).write = some (t, title) := by
  rw [decode, Graph.read_write (isClean_treeGraph t title), Option.bind_some, treeOf_treeGraph]
  rfl

/-! ### What the graph shows -/

/-- The name that a node is declared by. -/
def nameOf : Statement → String
  | .node name _ => name
  | _ => ""

/-- **A graph shows a tree.** -/
structure Shows (g : Graph) (t : Tree) : Prop where
  /-- The nodes that are declared are those of the drawn tree in their order. -/
  nodes : nodesOf g.statements = (drawn 0 t).preorder.map Drawn.statement
  /-- There is one for every node of the tree and one more for every hollow node, and they are
  numbered in their order. -/
  names : (nodesOf g.statements).map nameOf = (List.range (t.size + t.hollow)).map nodeName
  /-- No node is declared twice. -/
  nodup : ((nodesOf g.statements).map nameOf).Nodup
  /-- Every node is declared before it is joined to another. -/
  declaresFirst : DeclaresFirst [] g.statements
  /-- There is one edge less than nodes. -/
  length_edges : (edgesOf g.statements).length + 1 = t.size + t.hollow
  /-- The edges that leave a node lead to its children from left to right. -/
  edges : ∀ d ∈ (drawn 0 t).preorder, edgesFrom d.number (edgesOf g.statements) = d.edges

end ShiftReduce.Render.TreeGraph
