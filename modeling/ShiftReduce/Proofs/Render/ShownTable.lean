import ShiftReduce.Proofs.Render.TablePieces
import ShiftReduce.Proofs.Table.Adequacy
import ShiftReduce.Proofs.Table.Rows

/-!
# The page of a table shows the table

A page with a table is read back (`ShiftReduce.Render.ShownTable.ofPage?`): the titles in the upper
row of the heading with the numbers of their columns, the symbols in the lower row, and for every
row of the body its heading and its cells, each with its text and whether it is marked as one with
conflicts.

What is read of the page of a parse table is what the table holds
(`ShiftReduce.Render.TablePage.ofPage?_tablePage`). In the table of an automaton every state fills a
cell, and every filled cell is one of a state and of a column, so nothing is missing from its page
(`ShiftReduce.Render.TablePage.ofPage?_ofAutomaton`).
-/

namespace ShiftReduce.Render

open Page Markup

/-- A row of a table as a page shows it. -/
structure ShownRow where
  /-- The texts of its headings. -/
  headings : List String
  /-- The texts of its cells, each with whether the cell is marked as one with conflicts. -/
  cells : List (String × Bool)
deriving DecidableEq

/-- A table as a page shows it. -/
structure ShownTable where
  /-- The titles in the upper row of the heading, with the numbers of their columns. -/
  titles : List (String × Option String)
  /-- The texts in the lower row of the heading. -/
  columns : List String
  /-- The rows of the body. -/
  rows : List ShownRow
deriving DecidableEq

namespace ShownTable

/-- Whether a class is among the given ones, which are separated by spaces. -/
def hasClass (classes : Option String) (name : String) : Bool :=
  name.toList ∈ ((classes.getD "").toList.splitOn ' ')

/-- What a cell shows. -/
def cellOf (shown : String × Option String) : String × Bool :=
  (shown.1, hasClass shown.2 "grammar-action-conflict")

/-- What a row shows. -/
def rowOf (e : Element) : ShownRow where
  headings := texts "th" e.content
  cells := ((elements "td" e.content).map Element.shown).map cellOf

/-- The table that a page shows, if it shows one with a heading of two rows. -/
def ofPage? (page : String) : Option ShownTable := do
  let tokens ← read page
  match elements "thead" tokens, elements "tbody" tokens with
  | [head], [body] =>
    match elements "tr" head.content with
    | [upper, lower] =>
      return {
        titles := (elements "th" upper.content).map TablePage.titleOf
        columns := texts "th" lower.content
        rows := (elements "tr" body.content).map rowOf }
    | _ => none
  | _, _ => none

end ShownTable

namespace TablePage

open ShownTable

variable {a : Appearance} {t : Table} {g : Augmented} {name : String}

/-! ### What is read of the page of a table -/

/-- What the page of a table shows in the row of a state. -/
def shownRow (t : Table) (g : Augmented) (state : Int) : ShownRow where
  headings := [toString state]
  cells := g.lookaheads.map (fun x => (cellText t (conflictsIn t state) ⟨state, x⟩,
      decide (rejected (conflictsIn t state) x ≠ [])))
    ++ (gotoColumns g).map fun x => (gotoText t ⟨state, x⟩, false)

theorem isFree_row (hname : name ∉ ["tr", "th", "td", "span"]) (state : Int) :
    IsFree name (row t g state) := by
  simp only [List.mem_cons, List.not_mem_nil, or_false, not_or] at hname
  rw [row_eq]
  exact isFree_block (by decide) (Ne.symm hname.1)
    (isFree_rowPieces hname.2.1 hname.2.2.1 hname.2.2.2 state)

theorem isFree_heading (hname : name ∉ ["thead", "tr", "th"]) : IsFree name (heading g) := by
  simp only [List.mem_cons, List.not_mem_nil, or_false, not_or] at hname
  rw [heading_eq]
  exact isFree_block (by decide) (Ne.symm hname.1) (List.forall_mem_cons.mpr
    ⟨isFree_block (by decide) (Ne.symm hname.2.1) (isFree_groupPieces hname.2.2),
      List.forall_mem_singleton.mpr
        (isFree_block (by decide) (Ne.symm hname.2.1) (isFree_columnPieces hname.2.2))⟩)

theorem isFree_rows (hname : name ∉ ["tr", "th", "td", "span"]) :
    ∀ m ∈ (rows t).map (row t g), IsFree name m := fun m hm => by
  obtain ⟨state, -, rfl⟩ := List.mem_map.mp hm
  exact isFree_row hname state

/-- **The heading of a table is read** as one element. -/
theorem elements_thead_body : elements "thead" (body a t g).tokens =
    [⟨[], contentOf .lines [block "tr" [] (groupPieces g), block "tr" [] (columnPieces g)]⟩] := by
  have hname : IsElementName "thead" := by decide
  have htbody : IsFree "thead" (block "tbody" [] ((rows t).map (row t g))) :=
    isFree_block (by decide) (by decide) (isFree_rows (by decide))
  have hpieces : ∀ m ∈ [block "tr" [] (groupPieces g), block "tr" [] (columnPieces g)],
      IsFree "thead" m := List.forall_mem_cons.mpr
    ⟨isFree_block (by decide) (by decide) (isFree_groupPieces (by decide)),
      List.forall_mem_singleton.mpr
        (isFree_block (by decide) (by decide) (isFree_columnPieces (by decide)))⟩
  rw [body, block, elements_element_of_ne hname (by decide), List.flatMap_cons,
    List.flatMap_singleton, htbody.elements_eq hname, heading_eq, block,
    elements_of_isFree hname hpieces]
  rfl

/-- **The body of a table is read** as one element. -/
theorem elements_tbody_body : elements "tbody" (body a t g).tokens =
    [⟨[], contentOf .lines ((rows t).map (row t g))⟩] := by
  have hname : IsElementName "tbody" := by decide
  rw [body, block, elements_element_of_ne hname (by decide), List.flatMap_cons,
    List.flatMap_singleton, (isFree_heading (by decide)).elements_eq hname, List.nil_append,
    block, elements_of_isFree hname (isFree_rows (by decide))]

/-- A row without rows in it is read as the whole of it. -/
theorem elements_tr_block {pieces : List Markup} (h : ∀ m ∈ pieces, IsFree "tr" m) :
    elements "tr" (block "tr" [] pieces).tokens = [⟨[], contentOf .lines pieces⟩] :=
  elements_of_isFree (by decide) h

theorem texts_contentOf (hname : IsElementName name) (pieces : List Markup) :
    texts name (contentOf .lines pieces) = pieces.flatMap fun m => texts name m.tokens := by
  rw [texts, elements_contentOf hname, List.map_flatMap]
  rfl

/-- A cell of the ACTION part is marked if it has rejected actions. -/
theorem hasClass_cellClasses (conflicts : List Conflict) (c : Cell) :
    hasClass (some (cellClasses conflicts c)) "grammar-action-conflict" =
      decide (rejected conflicts c.symbol ≠ []) := by
  have hplain : hasClass (some "grammar-table-cell") "grammar-action-conflict" = false := by
    decide +kernel
  have hmarked : hasClass (some "grammar-table-cell grammar-action-conflict")
      "grammar-action-conflict" = true := by decide +kernel
  rw [cellClasses]
  by_cases hnone : rejected conflicts c.symbol = []
  · rw [if_pos hnone, hplain, decide_eq_false (not_not_intro hnone)]
  · rw [if_neg hnone, hmarked, decide_eq_true hnone]

/-- **The row of a state is read** as what it shows. -/
theorem rowOf_rowPieces (state : Int) :
    rowOf ⟨[], contentOf .lines (rowPieces t g state)⟩ = shownRow t g state := by
  have hplain : hasClass (some "grammar-table-cell") "grammar-action-conflict" = false := by
    decide +kernel
  rw [rowOf, shownRow, texts_contentOf (by decide), texts_rowPieces,
    elements_contentOf (by decide), shown_rowPieces, List.map_append, List.map_map, List.map_map]
  simp only [Function.comp_def, cellOf, hasClass_cellClasses, hplain]

/-- **The page of a table shows what the table holds**, unless the table is empty. -/
theorem ofPage?_tablePage (ha : '"' ∉ a.tableClasses.toList) (hrows : rows t ≠ []) :
    ofPage? (tablePage a t g) = some {
      titles := groupTitles g
      columns := g.lookaheads ++ gotoColumns g
      rows := (rows t).map (shownRow t g) } := by
  have hread : read (tablePage a t g) = some (body a t g).tokens := by
    rw [tablePage, if_neg (by simpa using hrows)]
    exact (isSound_body ha).isExact.read_eq
  have hheading : elements "tr" (contentOf .lines
      [block "tr" [] (groupPieces g), block "tr" [] (columnPieces g)]) =
        [⟨[], contentOf .lines (groupPieces g)⟩, ⟨[], contentOf .lines (columnPieces g)⟩] := by
    rw [elements_contentOf (by decide), List.flatMap_cons, List.flatMap_singleton,
      elements_tr_block (isFree_groupPieces (by decide)),
      elements_tr_block (isFree_columnPieces (by decide))]
    rfl
  have hbody : (elements "tr" (contentOf .lines ((rows t).map (row t g)))).map rowOf =
      (rows t).map (shownRow t g) := by
    have hrow : ∀ state, (elements "tr" (row t g state).tokens).map rowOf = [shownRow t g state] :=
      fun state => by
        rw [row_eq, elements_tr_block (isFree_rowPieces (by decide) (by decide) (by decide) state),
          List.map_singleton, rowOf_rowPieces]
    rw [elements_contentOf (by decide), List.flatMap_map, List.map_flatMap]
    simp only [hrow]
    rw [← List.map_eq_flatMap]
  have hgroups :
      (elements "th" (contentOf .lines (groupPieces g))).map titleOf = groupTitles g := by
    rw [elements_contentOf (by decide), titles_groupPieces]
  have hcolumns :
      texts "th" (contentOf .lines (columnPieces g)) = g.lookaheads ++ gotoColumns g := by
    rw [texts_contentOf (by decide), texts_columnPieces]
  rw [ofPage?, hread]
  simp only [Option.bind_eq_bind, Option.bind_some, elements_thead_body, elements_tbody_body,
    hheading, hgroups, hcolumns, hbody, Option.pure_def]

/-! ### The table of an automaton -/

section OfAutomaton

open Automaton Table

variable {A : Augmented} {G : Grammar} {s : State}

theorem rejected_conflictsIn (t : Table) (state : ℤ) (x : Symbol) :
    rejected (conflictsIn t state) x = (t.conflictsAt ⟨state, x⟩).map (·.incoming) := by
  rw [rejected, conflictsIn, conflictsAt, List.filter_filter]
  refine congrArg _ (List.filter_congr fun k _ => ?_)
  simp [Cell.mk.injEq, Bool.and_comm]

theorem lookaheads_eq (hg : A.Augments G) : A.lookaheads = G.terminals.toList ++ [endMarker] := by
  have hnone : G.terminals.toList.filter (· ≠ endMarker) = G.terminals.toList :=
    List.filter_eq_self.mpr fun x hx => decide_eq_true (hg.wellFormed.ne_endMarker hx)
  rw [Augmented.lookaheads, hg.terminals, hnone]

/-- Without the fresh start symbol the non-terminals are those of the grammar. -/
theorem gotoColumns_eq (hg : A.Augments G) (hf : A.IsFresh G) :
    gotoColumns A = G.nonTerminals.toList := by
  refine (A.nonTerminals.ascending.filter _).eq_of_mem_iff G.nonTerminals.ascending fun x => ?_
  rw [List.mem_filter, SymbolSet.mem_toList, hg.nonTerminals, SymbolSet.mem_toList]
  constructor
  · rintro ⟨htop | hx, hne⟩
    · exact absurd htop (of_decide_eq_true hne)
    · exact hx
  · exact fun hx => ⟨Or.inr hx, decide_eq_true fun htop => hf.notMem_nonTerminals (htop ▸ hx)⟩

/-- A state has a row if it fills a cell. -/
theorem mem_rows_iff {t : Table} {q : ℤ} : q ∈ rows t ↔
    (∃ x act, t.action.get? ⟨q, x⟩ = some act) ∨ ∃ x r, t.goto.get? ⟨q, x⟩ = some r := by
  have hcells : ∀ {α : Type} (sheet : Cells α),
      q ∈ sheet.rows.map (·.1) ↔ ∃ x y, sheet.get? ⟨q, x⟩ = some y := fun sheet => by
    rw [Cells.rows, Cells.mem_map_foldr_addToRows]
    constructor
    · rintro ⟨⟨⟨q, x⟩, y⟩, hmem, rfl⟩
      exact ⟨x, y, Cells.mem_toList.mp hmem⟩
    · rintro ⟨x, y, hget⟩
      exact ⟨⟨⟨q, x⟩, y⟩, Cells.mem_toList.mpr hget, rfl⟩
  rw [rows, Ascending.mem_ofList, List.mem_append, hcells, hcells]

theorem items_ne_nil (hg : A.Augments G) (hs : s ∈ (ofAugmented A).states) : s.items ≠ [] := by
  have hreach := ((isCanonical_ofAugmented hg.size_pos).reachable s.items).mp ⟨s, hs, rfl⟩
  generalize s.items = items at hreach
  cases hreach with
  | first =>
    exact List.ne_nil_of_mem (Augmented.subset_closure (List.mem_singleton.mpr rfl))
  | goto _ hne => exact hne

/-- **Every state fills a cell**: the next symbol of an item moves on, and a completed item accepts
or is reduced. -/
theorem exists_get?_of_mem_states (hg : A.Augments G) (hf : A.IsFresh G)
    (hs : s ∈ (ofAugmented A).states) :
    (∃ x act, (ofAutomaton (ofAugmented A)).action.get? ⟨s.id, x⟩ = some act) ∨
      ∃ x r, (ofAutomaton (ofAugmented A)).goto.get? ⟨s.id, x⟩ = some r := by
  have hA := hg.size_pos
  have hfilled : ∀ {x act}, x ∈ A.lookaheads → act ∈ candidates (ofAugmented A) s x →
      ∃ x act, (ofAutomaton (ofAugmented A)).action.get? ⟨s.id, x⟩ = some act := by
    intro x act hx hact
    obtain ⟨first, hfirst⟩ : ∃ first, (candidates (ofAugmented A) s x).head? = some first :=
      Option.isSome_iff_exists.mp (List.isSome_head?.mpr (List.ne_nil_of_mem hact))
    exact ⟨x, first, (get?_eq_head?_candidates hg hf hs hx).trans hfirst⟩
  obtain ⟨i, hi⟩ := List.exists_mem_of_ne_nil _ (items_ne_nil hg hs)
  have hheld : (ofAugmented A).Holds s.id i := ⟨s, hs, rfl, hi⟩
  rcases hnext : A.nextSymbol i with _ | X
  · have hcomplete : A.isComplete i = true :=
      decide_eq_true (List.getElem?_eq_none_iff.mp hnext)
    have hend : endMarker ∈ A.lookaheads := Augmented.mem_lookaheads.mpr (Or.inr rfl)
    have hcandidate := mem_candidates_of_isComplete (x := endMarker) hg hs hi hcomplete
    split at hcandidate
    · exact Or.inl (hfilled hend hcandidate)
    · exact Or.inl (hfilled hend hcandidate)
  · obtain ⟨r, hedge⟩ := hheld.exists_edge hA hnext
    by_cases hterm : X ∈ A.terminals
    · obtain ⟨s', -, hid, move, hmove, hX, -⟩ := (exists_movesFrom_iff hA).mpr hedge
      have hid : s'.id = s.id := by exact_mod_cast hid
      have hcandidate : .shift move.target ∈ candidates (ofAugmented A) s X :=
        mem_candidates.mpr (Or.inl (mem_shiftCandidates.mpr ⟨move, hid ▸ hmove, hX, hterm, rfl⟩))
      exact Or.inl (hfilled (Augmented.mem_lookaheads.mpr (Or.inl hterm)) hcandidate)
    · have hp := Array.getElem?_eq_getElem (Augmented.mem_items.mp (hheld.mem_items hA)).1
      have hX : X ∈ A.rhs i.production := List.mem_of_getElem? hnext
      rw [Augmented.rhs_eq hp] at hX
      have hnon := (hg.rhs_mem hp hX).resolve_left (hg.terminals ▸ hterm)
      exact Or.inr ⟨X, r, (get?_goto_iff_mem_nonTerminals hg hf).mpr ⟨hnon, hedge⟩⟩

/-- **The table of an automaton has a row for every state**, in the order of their numbers. -/
theorem rows_ofAutomaton (hg : A.Augments G) (hf : A.IsFresh G) :
    rows (ofAutomaton (ofAugmented A)) = (ofAugmented A).states.map fun s => (s.id : ℤ) := by
  have hascending : ((ofAugmented A).states.map fun s => (s.id : ℤ)).Pairwise (· < ·) := by
    have hids := (isCanonical_ofAugmented hg.size_pos).ids
    have hcast : ((ofAugmented A).states.map fun s => (s.id : ℤ)) =
        ((ofAugmented A).states.map (·.id)).map Nat.cast := by
      rw [List.map_map]
      rfl
    rw [hcast, hids, List.pairwise_map]
    exact List.pairwise_lt_range.imp fun h => Int.ofNat_lt.mpr h
  refine (Ascending.pairwise_ofList _).eq_of_mem_iff hascending fun q => ?_
  change q ∈ rows _ ↔ _
  rw [mem_rows_iff, List.mem_map]
  constructor
  · rintro (⟨x, act, hget⟩ | ⟨x, r, hget⟩)
    · obtain ⟨⟨s, hs, hid⟩, -⟩ := (justified_of_get? hg.size_pos hget).isActionCell hg.size_pos
      exact ⟨s, hs, hid⟩
    · obtain ⟨-, hedge⟩ := (get?_goto_iff_mem_nonTerminals hg hf).mp hget
      obtain ⟨i, ⟨s, hs, hid, -⟩, -⟩ := hedge.exists_holds hg.size_pos
      exact ⟨s, hs, hid⟩
  · rintro ⟨s, hs, rfl⟩
    exact exists_get?_of_mem_states hg hf hs

/-- What a page should show of the table of an automaton: the terminals of the grammar, the end
marker and its non-terminals as columns, and a row for every state. A cell of the ACTION part shows
its action, if it has one, and behind it each action that is rejected there; it is marked if there
are conflicts in it. A cell of the GOTO part shows the state to go to, if there is one. -/
def shownTable (G : Grammar) (m : Automaton) (t : Table) : ShownTable where
  titles := [("State", none), ("ACTION", some (toString (G.terminals.toList.length + 1))),
    ("GOTO", some (toString G.nonTerminals.toList.length))]
  columns := G.terminals.toList ++ [endMarker] ++ G.nonTerminals.toList
  rows := m.states.map fun s => {
    headings := [toString s.id]
    cells := (G.terminals.toList ++ [endMarker]).map (fun x =>
        (((t.action.get? ⟨s.id, x⟩).map Action.text).getD ""
            ++ String.join ((t.conflictsAt ⟨s.id, x⟩).map fun k => " / " ++ k.incoming.text),
          decide (t.conflictsAt ⟨s.id, x⟩ ≠ [])))
      ++ G.nonTerminals.toList.map fun x =>
        (((t.goto.get? ⟨s.id, x⟩).map toString).getD "", false) }

/-- **The page of the table of an automaton shows the whole table.** -/
theorem ofPage?_ofAugmented (hg : A.Augments G) (hf : A.IsFresh G)
    (ha : '"' ∉ a.tableClasses.toList) :
    ofPage? (tablePage a (ofAutomaton (ofAugmented A)) A) =
      some (shownTable G (ofAugmented A) (ofAutomaton (ofAugmented A))) := by
  have hrows := rows_ofAutomaton hg hf
  have hstates : rows (ofAutomaton (ofAugmented A)) ≠ [] := by
    obtain ⟨s, hs, -⟩ := holds_start hg.size_pos
    rw [hrows]
    exact List.ne_nil_of_mem (List.mem_map.mpr ⟨s, hs, rfl⟩)
  have htitles : groupTitles A = [("State", none),
      ("ACTION", some (toString (G.terminals.toList.length + 1))),
      ("GOTO", some (toString G.nonTerminals.toList.length))] := by
    have hgotos : G.nonTerminals.toList.isEmpty = false := by
      rw [List.isEmpty_eq_false_iff]
      exact List.ne_nil_of_mem hg.wellFormed.start_mem
    rw [groupTitles, groupTitle, groupTitle, lookaheads_eq hg, gotoColumns_eq hg hf]
    simp [hgotos]
  have hrow : ∀ s : State, shownRow (ofAutomaton (ofAugmented A)) A s.id = {
      headings := [toString s.id]
      cells := (G.terminals.toList ++ [endMarker]).map (fun x =>
          ((((ofAutomaton (ofAugmented A)).action.get? ⟨s.id, x⟩).map Action.text).getD ""
              ++ String.join (((ofAutomaton (ofAugmented A)).conflictsAt ⟨s.id, x⟩).map
                fun k => " / " ++ k.incoming.text),
            decide ((ofAutomaton (ofAugmented A)).conflictsAt ⟨s.id, x⟩ ≠ [])))
        ++ G.nonTerminals.toList.map fun x =>
          ((((ofAutomaton (ofAugmented A)).goto.get? ⟨s.id, x⟩).map toString).getD "", false) } :=
    fun s => by
      rw [shownRow, lookaheads_eq hg, gotoColumns_eq hg hf]
      simp only [cellText, rejected_conflictsIn, List.map_map, Function.comp_def, ne_eq,
        List.map_eq_nil_iff]
      rfl
  rw [ofPage?_tablePage ha hstates, htitles, hrows, List.map_map, lookaheads_eq hg,
    gotoColumns_eq hg hf, shownTable]
  simp only [Function.comp_def, hrow]

end OfAutomaton

/-- **The page of a parse table shows the whole table.** A grammar that was built from rows has,
with a prime marker that is not empty, an automaton whose states are numbered from zero. On the page
of its table all its states have their rows, in this order, and all symbols their columns, in
ascending order; every cell shows what the table holds in it, and is marked as the table records
conflicts in it. All the actions, moves and conflicts of the table are in cells that the page
shows. -/
theorem ofPage?_ofAutomaton {rows : List Row} {G : Grammar} {settings : Settings} {a : Appearance}
    (hg : Grammar.ofRows rows = .ok G) (ha : '"' ∉ a.tableClasses.toList) :
    ∃ m, Automaton.ofGrammar G settings = .ok m ∧
      m.states.map (·.id) = List.range m.states.length ∧
      ofPage? (tablePage a (Table.ofAutomaton m) m.grammar) =
        some (shownTable G m (Table.ofAutomaton m)) ∧
      (∀ c act, (Table.ofAutomaton m).action.get? c = some act →
        (∃ s ∈ m.states, (s.id : ℤ) = c.state) ∧ c.symbol ∈ G.terminals.toList ++ [endMarker]) ∧
      (∀ c r, (Table.ofAutomaton m).goto.get? c = some r →
        (∃ s ∈ m.states, (s.id : ℤ) = c.state) ∧ c.symbol ∈ G.nonTerminals.toList) ∧
      ∀ k ∈ (Table.ofAutomaton m).conflicts,
        (∃ s ∈ m.states, (s.id : ℤ) = k.state) ∧ k.symbol ∈ G.terminals.toList ++ [endMarker] ∧
        k ∈ (Table.ofAutomaton m).conflictsAt ⟨k.state, k.symbol⟩ := by
  obtain ⟨m, hm⟩ := Automaton.exists_ofGrammar hg settings
  obtain ⟨A, rfl, haug, hfresh⟩ := Automaton.exists_augments hg hm
  have hcolumn : ∀ x, x ∈ A.terminals ∨ x = endMarker → x ∈ G.terminals.toList ++ [endMarker] :=
    fun x hx => by rwa [List.mem_append, List.mem_singleton, SymbolSet.mem_toList, ← haug.terminals]
  refine ⟨_, hm, (Automaton.isCanonical_ofAugmented haug.size_pos).ids,
    ofPage?_ofAugmented haug hfresh ha, fun c act hget => ?_, fun c r hget => ?_, fun k hk => ?_⟩
  · obtain ⟨hstate, hsymbol⟩ :=
      (Table.justified_of_get? haug.size_pos hget).isActionCell haug.size_pos
    exact ⟨hstate, hcolumn _ hsymbol⟩
  · obtain ⟨hsymbol, hedge⟩ := (Table.get?_goto_iff_mem_nonTerminals haug hfresh).mp hget
    obtain ⟨i, ⟨s, hs, hid, -⟩, -⟩ := hedge.exists_holds haug.size_pos
    exact ⟨⟨s, hs, hid⟩, hsymbol⟩
  · obtain ⟨hcell, hstate, hsymbol⟩ := Table.isActionCell_of_mem_conflicts haug.size_pos hk
    exact ⟨hstate, hcolumn _ hsymbol, hcell⟩

/-- The page of the table for sums shows the conflict between the two ways to bracket them. -/
theorem ofPage?_ofAutomaton_sums : ∃ shown,
    ofPage? (tablePage {} (Table.ofAutomaton (Automaton.ofAugmented Table.sumsAugmented))
      Table.sumsAugmented) = some shown ∧
    shown.columns = ["+", "i", "$", "E"] ∧
    (shown.rows.map (·.headings)) = [["0"], ["1"], ["2"], ["3"], ["4"]] ∧
    (shown.rows.map (·.cells))[4]? = some [("shift 3 / reduce 1", true), ("reduce 1", false),
      ("reduce 1", false), ("", false)] := by
  have hgrammar : Automaton.ofGrammar Table.sums {} =
      .ok (Automaton.ofAugmented Table.sumsAugmented) := rfl
  obtain ⟨m, hm, -, hpage, -⟩ :=
    @ofPage?_ofAutomaton Table.sumRows Table.sums {} {} (by decide +kernel) (by decide)
  obtain rfl : Automaton.ofAugmented Table.sumsAugmented = m :=
    Except.ok.inj (hgrammar.symm.trans hm)
  exact ⟨_, hpage, by decide +kernel, by decide +kernel, by decide +kernel⟩

end TablePage

end ShiftReduce.Render
