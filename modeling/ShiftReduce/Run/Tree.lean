import ShiftReduce.Grammar.Symbol

/-!
# Parse trees

A node carries a symbol and says whether that symbol was read from the input. Nodes that were
read have no children in a tree that a run builds; a tree from elsewhere may differ.
-/

namespace ShiftReduce

/-- A parse tree. -/
inductive Tree where
  /-- A node with its symbol, whether the symbol was read, and its children from left to right. -/
  | node (label : Symbol) (isTerminal : Bool) (children : List Tree)
deriving Inhabited

namespace Tree

/-- The symbol at the root. -/
def label : Tree → Symbol
  | node label _ _ => label

/-- Whether the symbol at the root was read. -/
def isTerminal : Tree → Bool
  | node _ isTerminal _ => isTerminal

/-- The children of the root. -/
def children : Tree → List Tree
  | node _ _ children => children

/-- A symbol that was read. -/
def leaf (label : Symbol) : Tree := node label true []

/-- A symbol that was recognised from its parts. -/
def branch (label : Symbol) (children : List Tree) : Tree := node label false children

mutual

/-- The tree on one line: a symbol with its children, if any, in brackets behind it. -/
def text : Tree → String
  | node label _ [] => label
  | node label _ (t :: rest) => label ++ "(" ++ " ".intercalate (text t :: texts rest) ++ ")"

/-- Several trees, each on its own. -/
def texts : List Tree → List String
  | [] => []
  | t :: rest => text t :: texts rest

end

end Tree

end ShiftReduce
