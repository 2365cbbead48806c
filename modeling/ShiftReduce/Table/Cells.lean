import ShiftReduce.Grammar.Symbol
import Std.Data.TreeMap

/-!
# Cells of a table

The ACTION and the GOTO part of a parse table are sheets with a row for each state and a column
for each symbol, most of whose cells are empty. A sheet is kept as a search tree of its filled
cells, by rows and then by columns. State numbers are integers here, since a table written by hand
may use any.
-/

namespace ShiftReduce

/-- The place of a cell: a state and a symbol. -/
structure Cell where
  /-- The row. -/
  state : Int
  /-- The column. -/
  symbol : Symbol
deriving DecidableEq

namespace Cell

/-- Cells are ordered by rows first and by columns second. -/
instance : Ord Cell :=
  ⟨compareLex (compareOn Cell.state) (compareOn Cell.symbol)⟩

instance : Std.TransOrd Cell :=
  inferInstanceAs (Std.TransCmp (compareLex (compareOn Cell.state) (compareOn Cell.symbol)))

instance : Std.LawfulEqOrd Cell where
  eq_of_compare {c d} h := by
    obtain ⟨hstate, hsymbol⟩ := compareLex_eq_eq.1 h
    cases c
    cases d
    simp only [compareOn, Std.LawfulEqCmp.compare_eq_iff_eq] at hstate hsymbol
    rw [hstate, hsymbol]

end Cell

/-- The filled cells of a sheet with their contents. -/
structure Cells (α : Type) where
  /-- The content of each filled cell. -/
  contents : Std.TreeMap Cell α := {}

namespace Cells

variable {α : Type}

/-- The content of a cell. -/
def get? (s : Cells α) (c : Cell) : Option α :=
  s.contents[c]?

/-- Fills a cell, whatever it held. -/
def put (s : Cells α) (c : Cell) (a : α) : Cells α :=
  ⟨s.contents.insert c a⟩

/-- The number of filled cells. -/
def size (s : Cells α) : Nat :=
  s.contents.size

/-- The filled cells with their contents, in order of rows and columns. -/
def toList (s : Cells α) : List (Cell × α) :=
  s.contents.toList

@[simp] theorem get?_empty (c : Cell) : ({} : Cells α).get? c = none :=
  Std.TreeMap.getElem?_emptyc

theorem get?_put (s : Cells α) (c d : Cell) (a : α) :
    (s.put c a).get? d = if d = c then some a else s.get? d := by
  simp only [get?, put, Std.TreeMap.getElem?_insert, Std.LawfulEqCmp.compare_eq_iff_eq,
    @eq_comm _ c d]

theorem mem_toList {s : Cells α} {c : Cell} {a : α} :
    (c, a) ∈ s.toList ↔ s.get? c = some a :=
  Std.TreeMap.mem_toList_iff_getElem?_eq_some

/-! ### Rows -/

/-- Puts a cell in front of cells that are grouped by rows, in a row of its own unless they begin
with its row. -/
def addToRows (e : Cell × α) : List (Int × List (Symbol × α)) → List (Int × List (Symbol × α))
  | (state, cells) :: rows =>
    if e.1.state = state then (state, (e.1.symbol, e.2) :: cells) :: rows
    else (e.1.state, [(e.1.symbol, e.2)]) :: (state, cells) :: rows
  | [] => [(e.1.state, [(e.1.symbol, e.2)])]

/-- The filled cells by rows, each row with its state. -/
def rows (s : Cells α) : List (Int × List (Symbol × α)) :=
  s.toList.foldr addToRows []

example : (((({} : Cells Nat).put ⟨3, "b"⟩ 5).put ⟨0, "a"⟩ 6).put ⟨3, "a"⟩ 7).rows
    = [(0, [("a", 6)]), (3, [("a", 7), ("b", 5)])] := by decide +kernel

end Cells

end ShiftReduce
