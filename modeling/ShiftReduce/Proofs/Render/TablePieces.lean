import ShiftReduce.Render.TablePage
import ShiftReduce.Proofs.Item.Signature
import ShiftReduce.Proofs.Render.StyleSheet

/-!
# The pieces of a table page

The page of a parse table is put together from headings and cells. Every piece is sound, since only
numbers and words of its own stand in its attributes. Its tags depend on the shape of what it shows
(`ShiftReduce.Render.TablePage.rowShape`), and its headings and cells have the texts that they were
made of (`ShiftReduce.Render.TablePage.cellText`), whatever characters these hold.
-/

namespace ShiftReduce

/-! ### Actions in words -/

theorem notMem_toString_int {c : Char} (hc : c.isDigit = false) (hminus : c ≠ '-') (n : Int) :
    c ∉ (toString n).toList := by
  rcases n with n | n
  · exact Item.notMem_toString hc n
  · have htext : toString (Int.negSucc n) = "-" ++ toString (n + 1) := rfl
    rw [htext]
    exact Text.notMem_append (fun h => hminus (List.mem_singleton.mp h)) (Item.notMem_toString hc _)

theorem Action.quote_notMem_text (action : Action) : '"' ∉ action.text.toList := by
  have hnumber : ∀ n : Int, '"' ∉ (toString n).toList :=
    notMem_toString_int (by decide) (by decide)
  cases action with
  | shift target =>
    have htext : (shift target).text = "shift " ++ toString target := rfl
    exact htext ▸ Text.notMem_append (by decide) (hnumber target)
  | reduce production =>
    have htext : (reduce production).text = "reduce " ++ toString production := rfl
    exact htext ▸ Text.notMem_append (by decide) (hnumber production)
  | accept => decide

namespace Render.TablePage

open Page Markup

variable {a : Appearance} {t t' : Table} {g g' : Augmented} {conflicts conflicts' : List Conflict}
  {c c' : Cell} {name : String}

/-! ### What the pieces show -/

/-- The text of a cell of the ACTION part: its action, and behind it each rejected one. -/
def cellText (t : Table) (conflicts : List Conflict) (c : Cell) : String :=
  ((t.action.get? c).map Action.text).getD ""
    ++ String.join ((rejected conflicts c.symbol).map fun r => " / " ++ r.text)

/-- The classes of a cell of the ACTION part. -/
def cellClasses (conflicts : List Conflict) (c : Cell) : String :=
  if rejected conflicts c.symbol = [] then "grammar-table-cell"
  else "grammar-table-cell grammar-action-conflict"

/-- The text of a cell of the GOTO part. -/
def gotoText (t : Table) (c : Cell) : String :=
  ((t.goto.get? c).map toString).getD ""

/-- The shape of a cell of the ACTION part: the sort of its action, and the rejected actions. -/
def cellShape (t : Table) (conflicts : List Conflict) (c : Cell) : Option String × List Action :=
  ((t.action.get? c).map Action.name, rejected conflicts c.symbol)

/-- The shape of the row of a state: that of each cell of the ACTION part. -/
def rowShape (t : Table) (g : Augmented) (state : Int) : List (Option String × List Action) :=
  g.lookaheads.map fun x => cellShape t (conflictsIn t state) ⟨state, x⟩

/-- The title above several columns and their number, if there are any. -/
def groupTitle (columns : List Symbol) (title : String) : List (String × Option String) :=
  if columns.isEmpty then [] else [(title, some (toString columns.length))]

/-- The titles in the upper row of the heading, with the numbers of their columns. -/
def groupTitles (g : Augmented) : List (String × Option String) :=
  ("State", none) :: groupTitle g.lookaheads "ACTION" ++ groupTitle (gotoColumns g) "GOTO"

/-! ### Cells of the ACTION part -/

theorem isSound_actionMark : ∀ action, ∀ m ∈ actionMark action, m.IsSound
  | none, _, hm => absurd hm List.not_mem_nil
  | some action, m, hm => by
    have hname : '"' ∉ ("grammar-action-" ++ action.name).toList := by
      cases action <;> simp [Action.name]
    rw [List.mem_singleton.mp hm]
    exact isSound_textIn (isCleanTag_cons (by decide) (by decide) hname) _

theorem actionCell_of_nil (h : rejected conflicts c.symbol = []) : actionCell t conflicts c =
    Markup.inline "td" [cls "grammar-table-cell"] (actionMark (t.action.get? c)) := by
  rw [actionCell, h]

theorem actionCell_of_cons {r : Action} {actions : List Action}
    (h : rejected conflicts c.symbol = r :: actions) : actionCell t conflicts c =
    Markup.inline "td" [cls "grammar-table-cell grammar-action-conflict",
        ("title", "rejected: " ++ " / ".intercalate ((r :: actions).map Action.text))]
      (actionMark (t.action.get? c) ++ [textIn "span" [cls "conflict-action"]
        (" / " ++ " / ".intercalate ((r :: actions).map Action.text))]) := by
  rw [actionCell, h]

theorem isSound_actionCell : (actionCell t conflicts c).IsSound := by
  rcases h : rejected conflicts c.symbol with _ | ⟨r, actions⟩
  · rw [actionCell_of_nil h]
    exact isSound_inline (by decide) (isSound_actionMark _)
  · rw [actionCell_of_cons h]
    have hactions :
        Text.Avoids ['"'] (" / ".intercalate ((r :: actions).map Action.text)).toList := by
      refine Text.avoids_intercalate (by decide) fun s hs c hc hmark => ?_
      obtain ⟨action, -, rfl⟩ := List.mem_map.mp hs
      exact action.quote_notMem_text (List.mem_singleton.mp hmark ▸ hc)
    have hquote :
        '"' ∉ ("rejected: " ++ " / ".intercalate ((r :: actions).map Action.text)).toList :=
      Text.notMem_append (by decide) fun hin => hactions _ hin (List.mem_singleton_self _)
    have htag : IsCleanTag "td" [cls "grammar-table-cell grammar-action-conflict",
        ("title", "rejected: " ++ " / ".intercalate ((r :: actions).map Action.text))] :=
      isCleanTag_cons (isCleanTag_cons (by decide) (by decide) hquote) (by decide) (by decide)
    refine isSound_inline htag fun m hm => ?_
    rcases List.mem_append.mp hm with hm | hm
    · exact isSound_actionMark _ m hm
    · rw [List.mem_singleton.mp hm]
      exact isSound_textIn (by decide) _

theorem tags_actionMark {action action' : Option Action}
    (h : action.map Action.name = action'.map Action.name) :
    ((actionMark action).flatMap fun m => tags m.tokens) =
      (actionMark action').flatMap fun m => tags m.tokens := by
  cases action <;> cases action' <;> simp_all [actionMark]

/-- **The tags of a cell** depend on its shape. -/
theorem tags_actionCell (h : cellShape t conflicts c = cellShape t' conflicts' c') :
    tags (actionCell t conflicts c).tokens = tags (actionCell t' conflicts' c').tokens := by
  obtain ⟨haction, hrejected⟩ := Prod.mk.inj h
  rw [actionCell, actionCell, hrejected]
  split
  · rw [tags_tokens_inline, tags_tokens_inline, tags_actionMark haction]
  · rw [tags_tokens_inline, tags_tokens_inline, List.flatMap_append, List.flatMap_append,
      tags_actionMark haction]

theorem isFree_actionMark (hname : name ≠ "span") : ∀ action, ∀ m ∈ actionMark action, IsFree name m
  | none, _, hm => absurd hm List.not_mem_nil
  | some action, m, hm => by
    rw [List.mem_singleton.mp hm]
    exact isFree_textIn (by decide) hname.symm _

theorem isFree_rejectedMark (hname : name ≠ "span") (s : String) :
    ∀ m ∈ actionMark (t.action.get? c) ++ [textIn "span" [cls "conflict-action"] s],
      IsFree name m := fun m hm => by
  rcases List.mem_append.mp hm with hm | hm
  · exact isFree_actionMark hname _ m hm
  · rw [List.mem_singleton.mp hm]
    exact isFree_textIn (by decide) hname.symm _

theorem isFree_actionCell (htd : name ≠ "td") (hspan : name ≠ "span") :
    IsFree name (actionCell t conflicts c) := by
  rcases h : rejected conflicts c.symbol with _ | ⟨r, actions⟩
  · rw [actionCell_of_nil h]
    exact .element (by decide) htd.symm (isFree_actionMark hspan _)
  · rw [actionCell_of_cons h]
    exact .element (by decide) htd.symm (isFree_rejectedMark hspan _)

theorem textOf_actionMark (action : Option Action) :
    String.join ((actionMark action).map fun m => textOf m.tokens) =
      (action.map Action.text).getD "" := by
  cases action with
  | none => rfl
  | some action => simp [actionMark, textOf_textIn]

/-- **A cell of the ACTION part is read** with its text and its classes. -/
theorem shown_actionCell : (elements "td" (actionCell t conflicts c).tokens).map Element.shown =
    [(cellText t conflicts c, some (cellClasses conflicts c))] := by
  have hname : IsElementName "td" := by decide
  rw [cellText, cellClasses]
  rcases h : rejected conflicts c.symbol with _ | ⟨r, actions⟩
  · rw [actionCell_of_nil h, Markup.inline,
      elements_of_isFree hname (isFree_actionMark (by decide) _), List.map_singleton,
      Element.shown, Element.text, textOf_contentOf_inline, textOf_actionMark]
    simp [Element.attribute?, cls]
  · have hrejected : " / " ++ " / ".intercalate ((r :: actions).map Action.text) =
        String.join ((r :: actions).map fun r => " / " ++ r.text) := by
      rw [List.map_cons, Text.append_intercalate_cons, ← List.map_cons, List.map_map]
      rfl
    rw [actionCell_of_cons h, Markup.inline,
      elements_of_isFree hname (isFree_rejectedMark (by decide) _), List.map_singleton,
      Element.shown, Element.text, textOf_contentOf_inline, List.map_append, String.join_append,
      textOf_actionMark, List.map_singleton, textOf_textIn, hrejected,
      if_neg (List.cons_ne_nil r actions)]
    simp [Element.attribute?, cls]

/-! ### Rows -/

/-- What stands in the row of a state. -/
def rowPieces (t : Table) (g : Augmented) (state : Int) : List Markup :=
  textIn "th" [cls "grammar-table-cell grammar-table-cell-primary", ("scope", "row")]
      (toString state)
    :: g.lookaheads.map (fun x => actionCell t (conflictsIn t state) ⟨state, x⟩)
    ++ (gotoColumns g).map fun x => gotoCell t ⟨state, x⟩

theorem row_eq (state : Int) : row t g state = block "tr" [] (rowPieces t g state) := rfl

theorem forall_mem_rowPieces {p : Markup → Prop} {state : Int}
    (hheading : p (textIn "th" [cls "grammar-table-cell grammar-table-cell-primary",
      ("scope", "row")] (toString state)))
    (haction : ∀ c, p (actionCell t (conflictsIn t state) c)) (hgoto : ∀ c, p (gotoCell t c)) :
    ∀ m ∈ rowPieces t g state, p m := by
  intro m hm
  simp only [rowPieces, List.mem_append, List.mem_cons, List.mem_map] at hm
  rcases hm with (rfl | ⟨x, -, rfl⟩) | ⟨x, -, rfl⟩
  · exact hheading
  · exact haction _
  · exact hgoto _

theorem isSound_row (state : Int) : (row t g state).IsSound :=
  isSound_block (by decide) (forall_mem_rowPieces (isSound_textIn (by decide) _)
    (fun _ => isSound_actionCell) fun _ => isSound_textIn (by decide) _)

/-- **The tags of a row** depend on its shape and on the number of its cells. -/
theorem tags_row {state state' : Int} (hshape : rowShape t g state = rowShape t' g' state')
    (hgotos : (gotoColumns g).length = (gotoColumns g').length) :
    tags (row t g state).tokens = tags (row t' g' state').tokens := by
  have hactions := flatMap_tags_congr _ _ (fun x y h => tags_actionCell h) hshape
  have hcells : (((gotoColumns g).map fun x => gotoCell t ⟨state, x⟩).flatMap fun m =>
      tags m.tokens) = ((gotoColumns g').map fun x => gotoCell t' ⟨state', x⟩).flatMap fun m =>
        tags m.tokens :=
    flatMap_tags_congr_of_length (fun x y => by simp [gotoCell]) hgotos
  rw [row_eq, row_eq, tags_tokens_block, tags_tokens_block, rowPieces, rowPieces,
    List.flatMap_append, List.flatMap_append, List.flatMap_cons, List.flatMap_cons, hactions,
    hcells, tags_tokens_textIn, tags_tokens_textIn]

theorem isFree_rowPieces (hth : name ≠ "th") (htd : name ≠ "td") (hspan : name ≠ "span")
    (state : Int) : ∀ m ∈ rowPieces t g state, IsFree name m :=
  forall_mem_rowPieces (isFree_textIn (by decide) hth.symm _)
    (fun _ => isFree_actionCell htd hspan) fun _ => isFree_textIn (by decide) htd.symm _

/-- **The cells of a row are read** with their texts and their classes. -/
theorem shown_rowPieces (state : Int) :
    ((rowPieces t g state).flatMap fun m => elements "td" m.tokens).map Element.shown =
      g.lookaheads.map (fun x => (cellText t (conflictsIn t state) ⟨state, x⟩,
        some (cellClasses (conflictsIn t state) ⟨state, x⟩)))
      ++ (gotoColumns g).map fun x => (gotoText t ⟨state, x⟩, some "grammar-table-cell") := by
  have hname : IsElementName "td" := by decide
  have hgoto : ∀ x, (elements "td" (gotoCell t ⟨state, x⟩).tokens).map Element.shown =
      [(gotoText t ⟨state, x⟩, some "grammar-table-cell")] := fun x => by
    rw [gotoCell, elements_textIn hname, if_pos rfl, List.map_singleton, Element.shown,
      Element.text, textOf_map_char]
    simp [Element.attribute?, cls, gotoText]
  rw [rowPieces, List.flatMap_append, List.flatMap_cons, elements_textIn hname,
    if_neg (by decide), List.nil_append, List.map_append, List.map_flatMap, List.map_flatMap,
    List.flatMap_map, List.flatMap_map]
  simp only [shown_actionCell, hgoto]
  rw [← List.map_eq_flatMap, ← List.map_eq_flatMap]

/-- **The heading of a row is read** as the number of its state. -/
theorem texts_rowPieces (state : Int) :
    ((rowPieces t g state).flatMap fun m => texts "th" m.tokens) = [toString state] := by
  have hname : IsElementName "th" := by decide
  have haction : ∀ x, texts "th" (actionCell t (conflictsIn t state) ⟨state, x⟩).tokens = [] :=
    fun x => (isFree_actionCell (by decide) (by decide)).texts_eq hname
  have hgoto : ∀ x, texts "th" (gotoCell t ⟨state, x⟩).tokens = [] := fun x =>
    (isFree_textIn (by decide) (by decide) _).texts_eq hname
  rw [rowPieces, List.flatMap_append, List.flatMap_cons, texts_textIn hname, List.flatMap_map,
    List.flatMap_map]
  simp [haction, hgoto]

/-! ### The heading -/

/-- What stands in the upper row of the heading. -/
def groupPieces (g : Augmented) : List Markup :=
  textIn "th" [cls "grammar-table-header grammar-table-header-primary", ("scope", "col"),
      ("rowspan", "2")] "State"
    :: groupHeading g.lookaheads "ACTION" ++ groupHeading (gotoColumns g) "GOTO"

/-- What stands in the lower row of the heading. -/
def columnPieces (g : Augmented) : List Markup :=
  (g.lookaheads ++ gotoColumns g).map fun x =>
    textIn "th" [cls "grammar-table-header", ("scope", "col")] x

theorem heading_eq : heading g =
    block "thead" [] [block "tr" [] (groupPieces g), block "tr" [] (columnPieces g)] := rfl

theorem forall_mem_groupHeading {p : Markup → Prop} {columns : List Symbol} {title : String}
    (h : ∀ n : ℕ, p (textIn "th" [cls "grammar-table-header", ("scope", "colgroup"),
      ("colspan", toString n)] title)) : ∀ m ∈ groupHeading columns title, p m := by
  intro m hm
  rw [groupHeading] at hm
  split at hm
  · exact absurd hm List.not_mem_nil
  · rw [List.mem_singleton.mp hm]
    exact h _

theorem forall_mem_groupPieces {p : Markup → Prop}
    (hstate : p (textIn "th" [cls "grammar-table-header grammar-table-header-primary",
      ("scope", "col"), ("rowspan", "2")] "State"))
    (hgroup : ∀ (title : String) (n : ℕ), p (textIn "th" [cls "grammar-table-header",
      ("scope", "colgroup"), ("colspan", toString n)] title)) : ∀ m ∈ groupPieces g, p m := by
  intro m hm
  rw [groupPieces, List.mem_append, List.mem_cons] at hm
  rcases hm with (rfl | hm) | hm
  · exact hstate
  · exact forall_mem_groupHeading (hgroup _) m hm
  · exact forall_mem_groupHeading (hgroup _) m hm

theorem isFree_groupPieces (hth : name ≠ "th") : ∀ m ∈ groupPieces g, IsFree name m :=
  forall_mem_groupPieces (isFree_textIn (by decide) hth.symm _)
    fun _ _ => isFree_textIn (by decide) hth.symm _

theorem isFree_columnPieces (hth : name ≠ "th") : ∀ m ∈ columnPieces g, IsFree name m := by
  intro m hm
  obtain ⟨x, -, rfl⟩ := List.mem_map.mp hm
  exact isFree_textIn (by decide) hth.symm _

theorem isSound_heading : (heading g).IsSound := by
  have hgroups : ∀ m ∈ groupPieces g, m.IsSound :=
    forall_mem_groupPieces (isSound_textIn (by decide) _) fun title n => by
      have hnumber : '"' ∉ (toString n).toList := Item.notMem_toString (by decide) n
      exact isSound_textIn (isCleanTag_cons (isCleanTag_cons (isCleanTag_cons (by decide)
        (by decide) hnumber) (by decide) (by decide)) (by decide) (by decide)) _
  have hcolumns : ∀ m ∈ columnPieces g, m.IsSound := fun m hm => by
    obtain ⟨x, -, rfl⟩ := List.mem_map.mp hm
    exact isSound_textIn (by decide) _
  exact isSound_block (by decide) (List.forall_mem_cons.mpr ⟨isSound_block (by decide) hgroups,
    List.forall_mem_singleton.mpr (isSound_block (by decide) hcolumns)⟩)

/-- **The tags of the heading** depend on the numbers of columns. -/
theorem tags_heading (hlookaheads : g.lookaheads.length = g'.lookaheads.length)
    (hgotos : (gotoColumns g).length = (gotoColumns g').length) :
    tags (heading g).tokens = tags (heading g').tokens := by
  have hgroup : ∀ {columns columns' : List Symbol} (title : String),
      columns.length = columns'.length →
        groupHeading columns title = groupHeading columns' title := by
    intro columns columns' title h
    have hempty : columns.isEmpty = columns'.isEmpty := Bool.eq_iff_iff.mpr (by
      rw [List.isEmpty_iff_length_eq_zero, List.isEmpty_iff_length_eq_zero, h])
    rw [groupHeading, groupHeading, h, hempty]
  have hcolumns : ((columnPieces g).flatMap fun m => tags m.tokens) =
      (columnPieces g').flatMap fun m => tags m.tokens :=
    flatMap_tags_congr_of_length (fun x y => by simp) (by simp [hlookaheads, hgotos])
  have hgroups : groupPieces g = groupPieces g' := by
    rw [groupPieces, groupPieces, hgroup "ACTION" hlookaheads, hgroup "GOTO" hgotos]
  rw [heading_eq, heading_eq, tags_tokens_block, tags_tokens_block]
  simp only [List.flatMap_cons, List.flatMap_nil, tags_tokens_block, hcolumns, hgroups]

/-- The title of an element and how many columns it stands above. -/
def titleOf (e : Element) : String × Option String :=
  (e.text, e.attribute? "colspan")

/-- **The upper row of the heading is read** as the titles, with the numbers of their columns. -/
theorem titles_groupPieces : ((groupPieces g).flatMap fun m => elements "th" m.tokens).map titleOf =
    groupTitles g := by
  have hname : IsElementName "th" := by decide
  have hgroup : ∀ columns title, ((groupHeading columns title).flatMap fun m =>
      elements "th" m.tokens).map titleOf = groupTitle columns title := fun columns title => by
    rw [groupHeading, groupTitle]
    split
    · rfl
    · rw [List.flatMap_singleton, elements_textIn hname, if_pos rfl, List.map_singleton, titleOf,
        Element.text, textOf_map_char]
      rfl
  rw [groupPieces, List.flatMap_append, List.flatMap_cons, elements_textIn hname, if_pos rfl,
    List.map_append, List.map_append, hgroup, hgroup]
  rfl

/-- **The lower row of the heading is read** as the symbols. -/
theorem texts_columnPieces : ((columnPieces g).flatMap fun m => texts "th" m.tokens) =
    g.lookaheads ++ gotoColumns g := by
  have hname : IsElementName "th" := by decide
  rw [columnPieces, List.flatMap_map]
  simp only [texts_textIn hname]
  rw [← List.map_eq_flatMap, List.map_id']

/-! ### The table -/

theorem isSound_body (ha : '"' ∉ a.tableClasses.toList) : (body a t g).IsSound := by
  have hclasses : '"' ∉ ("grammar-table " ++ a.tableClasses).toList :=
    Text.notMem_append (by decide) ha
  have hrows : ∀ m ∈ (rows t).map (row t g), m.IsSound := fun m hm => by
    obtain ⟨state, -, rfl⟩ := List.mem_map.mp hm
    exact isSound_row state
  exact isSound_block (isCleanTag_cons (by decide) (by decide) hclasses)
    (List.forall_mem_cons.mpr ⟨isSound_heading,
      List.forall_mem_singleton.mpr (isSound_block (by decide) hrows)⟩)

end Render.TablePage

end ShiftReduce
