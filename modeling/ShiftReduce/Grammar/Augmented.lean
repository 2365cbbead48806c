import ShiftReduce.Grammar.Basic
import ShiftReduce.Grammar.Problem
import ShiftReduce.Order.SignedIndex
import ShiftReduce.Settings

/-!
# Augmented grammars

Before items are made of a grammar it gets a start symbol that occurs nowhere else, with the one
production from it to the old start symbol. The new symbol is the old one with the prime marker
behind it, as many times as it takes to be in neither symbol set. The new production has number
zero, and those of the grammar follow from one on in their order, so that the number of a
production is its place. An augmented grammar carries the proof of both.
-/

namespace ShiftReduce

/-- A grammar with a fresh start symbol. -/
structure Augmented where
  /-- The start symbol of the grammar. -/
  start : Symbol
  /-- The fresh start symbol. -/
  top : Symbol
  /-- The productions, the one of the fresh start symbol first. -/
  productions : Array Production
  /-- The terminals of the grammar. -/
  terminals : SymbolSet
  /-- The non-terminals of the grammar and the fresh start symbol. -/
  nonTerminals : SymbolSet
  /-- The number of a production is its place. -/
  id_eq : ∀ (k : Nat) (p : Production), productions[k]? = some p → p.id = k
  /-- The first production replaces the fresh start symbol by the old one. -/
  exists_first : ∃ p, productions[0]? = some p ∧ p.lhs = top ∧ p.rhs = [start]

namespace Augmented

/-- The start symbol with the marker `k` times behind it. -/
def primed (start : Symbol) (marker : String) (k : Nat) : Symbol :=
  start ++ String.join (List.replicate k marker)

/-- The start symbol, primed as few times as make it fresh. By a marker that is not empty the primed
symbols all differ, so that one of the first `n + 1` is outside the sets if they have `n` members,
and the search ends with one. By an empty marker the start symbol stays what it is. -/
def freshTop (g : Grammar) (marker : String) : Symbol :=
  let taken := g.nonTerminals.toList ++ g.terminals.toList
  ((List.range' 1 (taken.length + 1)).map (primed g.start marker)).find? (· ∉ taken)
    |>.getD (primed g.start marker 1)

/-- The production with another number. -/
def renumber (p : Production) (id : Nat) : Production :=
  { p with id := id }

/-- The production of a fresh start symbol, and those of a grammar numbered from one on. -/
def numberProductions (g : Grammar) (top : Symbol) : Array Production :=
  (⟨0, top, [g.start], Production.arrow top [g.start]⟩
    :: (g.productions.zipIdx 1).map fun (p, k) => renumber p k).toArray

theorem id_of_getElem?_numberProductions {g : Grammar} {top : Symbol} (k : Nat) (p : Production)
    (h : (numberProductions g top)[k]? = some p) : p.id = k := by
  cases k with
  | zero =>
    obtain rfl : _ = p := by simpa [numberProductions] using h
    rfl
  | succ k =>
    obtain ⟨q, -, rfl⟩ : ∃ q, g.productions[k]? = some q ∧ renumber q (1 + k) = p := by
      simpa [numberProductions, List.getElem?_zipIdx, Option.map_map] using h
    simp [renumber, Nat.add_comm]

/-- The augmented grammar, or what a grammar lacks to have one. -/
def ofGrammar (g : Grammar) (settings : Settings) : Except (List Problem) Augmented :=
  match (if g.start = "" then [.noStartSymbol] else [])
      ++ (if g.productions.isEmpty then [.noProductions] else []) with
  | [] =>
    let top := freshTop g settings.primeMarker
    .ok {
      start := g.start
      top
      productions := numberProductions g top
      terminals := g.terminals
      nonTerminals := g.nonTerminals.insert top
      id_eq := id_of_getElem?_numberProductions
      exists_first := ⟨_, rfl, rfl, rfl⟩ }
  | problems => .error problems

/-- The production with a number, which counts from the end if it is negative. -/
def production? (g : Augmented) (number : Int) : Option Production :=
  (signedIndex? g.productions.size number).bind fun k => g.productions[k]?

/-- The left-hand side of a production by its number. The items of a grammar have no numbers but
those of its productions; where another one may come, it is `production?` that is asked. -/
def lhs (g : Augmented) (p : Nat) : Symbol :=
  (g.productions[p]?.map (·.lhs)).getD ""

/-- The right-hand side of a production by its number, which is one of a production as well. -/
def rhs (g : Augmented) (p : Nat) : List Symbol :=
  (g.productions[p]?.map (·.rhs)).getD []

/-- The symbols before which a completed item is reduced: every terminal, then the end marker. -/
def lookaheads (g : Augmented) : List Symbol :=
  g.terminals.toList.filter (· ≠ endMarker) ++ [endMarker]

end Augmented

end ShiftReduce
