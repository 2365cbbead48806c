import ShiftReduce.Grammar.Symbol
import ShiftReduce.Text.Quoted

/-!
# Context-free grammars

A grammar is a start symbol, two sets of symbols, and numbered productions in the order in which
they were authored. Nothing ties the parts together here: that the productions use symbols of the
two sets, that the start symbol is one of the non-terminals and that the numbers count from zero
is what building a grammar from authored rows ensures, and what a grammar put together by hand
may lack.
-/

namespace ShiftReduce

/-- A production: a left-hand side and the symbols it may be replaced by. -/
structure Production where
  /-- The number of the production. -/
  id : Int
  /-- The left-hand side. -/
  lhs : Symbol
  /-- The right-hand side, empty for the empty word. -/
  rhs : List Symbol
  /-- How the production was authored, or nothing. -/
  authored : String := ""
deriving DecidableEq

namespace Production

/-- Whether the right-hand side is empty. -/
def isEpsilon (p : Production) : Bool :=
  p.rhs.isEmpty

/-- A left-hand side, an arrow and a right-hand side. -/
def arrow (lhs : Symbol) (rhs : List Symbol) : String :=
  lhs ++ " -> " ++ (if rhs.isEmpty then emptyWord else " ".intercalate rhs)

/-- How the production is shown: as it was authored, if that is known. -/
def text (p : Production) : String :=
  if p.authored = "" then arrow p.lhs p.rhs else p.authored

end Production

/-- A context-free grammar. -/
structure Grammar where
  /-- The start symbol. -/
  start : Symbol
  /-- The non-terminals. -/
  nonTerminals : SymbolSet
  /-- The terminals. -/
  terminals : SymbolSet
  /-- The productions in authoring order. -/
  productions : List Production
deriving DecidableEq

namespace Grammar

/-- The grammar in words: start symbol, both symbol sets, and a line for each production. -/
def text (g : Grammar) : String :=
  "\n".intercalate
    (["Start Symbol: " ++ g.start,
      "Terminals: " ++ Text.quotedList g.terminals.toList,
      "Non-terminals: " ++ Text.quotedList g.nonTerminals.toList,
      "Productions:"]
      ++ g.productions.map fun p => "  " ++ toString p.id ++ ": " ++ p.text)

end Grammar

end ShiftReduce
