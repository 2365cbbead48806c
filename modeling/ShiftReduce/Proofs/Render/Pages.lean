import ShiftReduce.Render.ErrorPage
import ShiftReduce.Render.TracePage
import ShiftReduce.Proofs.Render.TablePieces

/-!
# No text adds mark-up to a page

The pages of tables, traces, messages, conflicts and problems hold texts from outside: symbols,
titles, messages, items. A family of pages *takes no mark-up from its texts*
(`ShiftReduce.Render.AddsNoMarkup`) if every delimiter of a page is one of a tag of it, if the tags
depend on the shape of what is shown alone, and if the texts are read from the page as they went
in. All five families do so, as long as the classes that the user has chosen hold no mark
(`ShiftReduce.Render.addsNoMarkup_pages`).
-/

namespace ShiftReduce.Render

open Page Markup Json

/-- The choice of classes that hold no marks. -/
structure Appearance.IsPlain (a : Appearance) : Prop where
  /-- The further classes of a parse table hold none. -/
  table_plain : IsPlainText a.tableClasses
  /-- The classes of a trace hold none. -/
  trace_plain : IsPlainText a.traceClasses
  /-- The classes of an error message hold none. -/
  error_plain : IsPlainText a.errorClasses

theorem IsPlainText.quote_notMem {s : String} (h : IsPlainText s) : '"' ∉ s.toList :=
  fun hin => h '"' hin (by decide)

/-- **A family of pages that takes no mark-up from the texts in it.** What is shown has a shape, and
texts that go in, listed by the names of the elements that show them. -/
structure AddsNoMarkup {ι σ : Type} (page : ι → String) (shape : ι → σ)
    (inserted : ι → List (String × List String)) : Prop where
  /-- Every page is read as some tokens, and it is their source. -/
  exists_isExact : ∀ x, ∃ tokens, IsExact (page x) tokens
  /-- Every delimiter of a page is one of its tags. -/
  delimiters_eq : ∀ x tokens, read (page x) = some tokens →
    (page x).toList.filter (· ∈ delimiters) =
      ((tags tokens).flatMap Page.Token.write).filter (· ∈ delimiters)
  /-- The tags depend on the shape alone. -/
  tags_eq : ∀ x y, shape x = shape y → (read (page x)).map tags = (read (page y)).map tags
  /-- The texts are read as they went in. -/
  texts_eq : ∀ x, ∀ e ∈ inserted x, (read (page x)).map (texts e.1) = some e.2

theorem AddsNoMarkup.of_isExact {ι σ : Type} {page : ι → String} {shape : ι → σ}
    {inserted : ι → List (String × List String)} (tokens : ι → List Page.Token)
    (hexact : ∀ x, IsExact (page x) (tokens x))
    (htags : ∀ x y, shape x = shape y → tags (tokens x) = tags (tokens y))
    (htexts : ∀ x, ∀ e ∈ inserted x, texts e.1 (tokens x) = e.2) :
    AddsNoMarkup page shape inserted where
  exists_isExact x := ⟨tokens x, hexact x⟩
  delimiters_eq x found hfound := by
    rw [(hexact x).read_eq, Option.some_inj] at hfound
    exact hfound ▸ (hexact x).filter_delimiters
  tags_eq x y h := by
    rw [(hexact x).read_eq, (hexact y).read_eq, Option.map_some, Option.map_some, htags x y h]
  texts_eq x e he := by
    rw [(hexact x).read_eq, Option.map_some, htexts x e he]

/-- A page that is one fixed piece if there is nothing to show. -/
theorem AddsNoMarkup.ite {ι σ : Type} {full : ι → String} {shape : ι → σ} {empty : ι → Bool}
    {note : Markup} {noteTexts : List (String × List String)}
    {fullTexts : ι → List (String × List String)} (tokens : ι → List Page.Token)
    (hshape : ∀ x y, shape x = shape y → empty x = empty y) (hnote : note.IsSound)
    (hnoteTexts : ∀ e ∈ noteTexts, texts e.1 note.tokens = e.2)
    (hfull : ∀ x, IsExact (full x) (tokens x))
    (htags : ∀ x y, shape x = shape y → tags (tokens x) = tags (tokens y))
    (htexts : ∀ x, ∀ e ∈ fullTexts x, texts e.1 (tokens x) = e.2) :
    AddsNoMarkup (fun x => if empty x then note.write else full x) shape
      fun x => if empty x then noteTexts else fullTexts x := by
  refine .of_isExact (fun x => if empty x then note.tokens else tokens x) ?_ ?_ ?_
  · intro x
    split
    · exact hnote.isExact
    · exact hfull x
  · intro x y h
    rw [hshape x y h]
    split
    · rfl
    · exact htags x y h
  · intro x e he
    by_cases hempty : empty x = true
    · rw [if_pos hempty] at he ⊢
      exact hnoteTexts e he
    · rw [if_neg hempty] at he ⊢
      exact htexts x e he

variable {a : Appearance}

/-! ### Empty pages -/

/-- The piece that stands for an empty page. -/
def emptyPiece (a : Appearance) (message : String) : Markup :=
  block "div" [cls a.errorClasses] [textIn "p" [] message]

theorem isSound_emptyPiece (ha : '"' ∉ a.errorClasses.toList) (message : String) :
    (emptyPiece a message).IsSound :=
  isSound_block (isCleanTag_cons (by decide) (by decide) ha)
    (List.forall_mem_singleton.mpr (isSound_textIn (by decide) _))

theorem texts_emptyPiece (message : String) :
    texts "p" (emptyPiece a message).tokens = [message] := by
  rw [emptyPiece, block, texts_element_of_ne (by decide) (by decide), List.flatMap_singleton,
    texts_textIn (by decide)]

/-! ### Tables -/

namespace TablePage

/-- The shape of a parse table: how many columns it has, and for every row the shapes of the cells
of its ACTION part. -/
def shape (t : Table) (g : Augmented) : ℕ × ℕ × List (List (Option String × List Action)) :=
  (g.lookaheads.length, (gotoColumns g).length, (rows t).map (rowShape t g))

/-- The texts on the page of a parse table. -/
def inserted (t : Table) (g : Augmented) : List (String × List String) :=
  if (rows t).isEmpty then [("p", ["No parsing states found"])]
  else
    [("th", (groupTitles g).map (·.1) ++ (g.lookaheads ++ gotoColumns g) ++ (rows t).map toString),
     ("td", (rows t).flatMap fun state =>
        g.lookaheads.map (fun x => cellText t (conflictsIn t state) ⟨state, x⟩)
          ++ (gotoColumns g).map fun x => gotoText t ⟨state, x⟩)]

variable {t t' : Table} {g g' : Augmented}

/-- **The tags of a table** depend on its shape. -/
theorem tags_body (h : shape t g = shape t' g') :
    tags (body a t g).tokens = tags (body a t' g').tokens := by
  obtain ⟨hlookaheads, hrest⟩ := Prod.mk.inj h
  obtain ⟨hgotos, hrows⟩ := Prod.mk.inj hrest
  have hall := flatMap_tags_congr _ _ (fun x y h => tags_row h hgotos) hrows
  rw [body, body, tags_tokens_block, tags_tokens_block]
  simp only [List.flatMap_cons, List.flatMap_nil, tags_tokens_block, hall,
    tags_heading hlookaheads hgotos]

theorem texts_th_body : texts "th" (body a t g).tokens =
    (groupTitles g).map (·.1) ++ (g.lookaheads ++ gotoColumns g) ++ (rows t).map toString := by
  have hname : IsElementName "th" := by decide
  have hgroups : ((groupPieces g).flatMap fun m => texts "th" m.tokens) =
      (groupTitles g).map (·.1) := by
    rw [← titles_groupPieces, List.map_map, List.map_flatMap]
    rfl
  have hrow : ∀ state, texts "th" (row t g state).tokens = [toString state] := fun state => by
    rw [row_eq, block, texts_element_of_ne hname (by decide), texts_rowPieces]
  rw [body, block, texts_element_of_ne hname (by decide), List.flatMap_cons, List.flatMap_singleton,
    heading_eq, block, texts_element_of_ne hname (by decide), List.flatMap_cons,
    List.flatMap_singleton, block, texts_element_of_ne hname (by decide), block,
    texts_element_of_ne hname (by decide), hgroups, texts_columnPieces, block,
    texts_element_of_ne hname (by decide), List.flatMap_map]
  simp only [hrow]
  rw [← List.map_eq_flatMap]

theorem texts_td_body : texts "td" (body a t g).tokens = (rows t).flatMap fun state =>
    g.lookaheads.map (fun x => cellText t (conflictsIn t state) ⟨state, x⟩)
      ++ (gotoColumns g).map fun x => gotoText t ⟨state, x⟩ := by
  have hname : IsElementName "td" := by decide
  have hheading : texts "td" (heading g).tokens = [] := by
    rw [heading_eq, block, texts_element_of_ne hname (by decide)]
    refine List.flatMap_eq_nil_iff.mpr (List.forall_mem_cons.mpr
      ⟨?_, List.forall_mem_singleton.mpr ?_⟩)
    · exact (IsFree.element (by decide) (by decide)
        (isFree_groupPieces (by decide))).texts_eq hname
    · exact (IsFree.element (by decide) (by decide)
        (isFree_columnPieces (by decide))).texts_eq hname
  have hrow : ∀ state, texts "td" (row t g state).tokens =
      g.lookaheads.map (fun x => cellText t (conflictsIn t state) ⟨state, x⟩)
        ++ (gotoColumns g).map fun x => gotoText t ⟨state, x⟩ := fun state => by
    have hshown := congrArg (List.map Prod.fst) (shown_rowPieces (t := t) (g := g) state)
    rw [List.map_map, List.map_flatMap, List.map_append, List.map_map, List.map_map] at hshown
    rw [row_eq, block, texts_element_of_ne hname (by decide)]
    exact hshown
  rw [body, block, texts_element_of_ne hname (by decide), List.flatMap_cons, List.flatMap_singleton,
    hheading, List.nil_append, block, texts_element_of_ne hname (by decide), List.flatMap_map]
  simp only [hrow]

theorem addsNoMarkup (ha : a.IsPlain) :
    AddsNoMarkup (fun x : Table × Augmented => tablePage a x.1 x.2) (fun x => shape x.1 x.2)
      fun x => inserted x.1 x.2 := by
  refine .ite (fun x => (body a x.1 x.2).tokens) (fun x y h => ?_)
    (isSound_emptyPiece ha.error_plain.quote_notMem _)
    (List.forall_mem_singleton.mpr (texts_emptyPiece _))
    (fun x => (isSound_body ha.table_plain.quote_notMem).isExact) (fun x y h => tags_body h)
    fun x => List.forall_mem_cons.mpr ⟨texts_th_body, List.forall_mem_singleton.mpr texts_td_body⟩
  simpa [shape] using congrArg (fun s => s.2.2.isEmpty) h

end TablePage

/-! ### Traces -/

namespace TracePage

/-- The shape of a trace: the sort of action of every step. -/
def shape (trace : List Record) : List (Option String) :=
  trace.map fun r => r.entry.map Action.name

/-- **The texts in the row of a step**: its number, the symbols and states on the stack from the
bottom on, the input, what it does, and the production as it was authored or else as its sides. -/
def rowTexts (r : Record) : List String :=
  [toString r.number, " ".intercalate (r.stack.flatMap fun e => e.2.toList ++ [toString e.1]),
    " ".intercalate r.input, r.action,
    match r.production with
    | none => ""
    | some p =>
      if p.authored ≠ "" then p.authored
      else p.lhs ++ " -> " ++ if p.rhs = [] then "ε" else " ".intercalate p.rhs]

/-- The texts on the page of a trace. -/
def inserted (trace : List Record) (title : String) : List (String × List String) :=
  if trace.isEmpty then [("p", ["No parsing steps recorded"])]
  else [("h3", [title]), ("td", trace.flatMap rowTexts)]

variable {r r' : Record} {trace trace' : List Record} {title title' name : String}

/-! #### What a row shows -/

/-- **The stack on one line shows its symbols and states**, and nothing else. -/
theorem stackText_eq (r : Record) :
    r.stackText = " ".intercalate (r.stack.flatMap fun e => e.2.toList ++ [toString e.1]) := by
  have hentry : ∀ e : ℤ × Option Symbol,
      Record.entryText e = " ".intercalate (e.2.toList ++ [toString e.1]) := by
    rintro ⟨state, _ | symbol⟩
    · simp [Record.entryText]
    · simp [Record.entryText, String.intercalate_cons_cons]
  rw [Record.stackText]
  induction r.stack with
  | nil => rfl
  | cons e stack ih =>
    rw [List.map_cons, List.flatMap_cons, hentry]
    rcases stack with _ | ⟨e', stack⟩
    · simp
    · rw [Text.intercalate_append " " (l := e.2.toList ++ [toString e.1]) (by simp) (by simp),
        ← ih, List.map_cons, String.intercalate_cons_cons]

/-- A production on one line. -/
theorem text_production (p : Production) :
    p.text = if p.authored ≠ "" then p.authored
      else p.lhs ++ " -> " ++ if p.rhs = [] then "ε" else " ".intercalate p.rhs := by
  rw [Production.text, Production.arrow, emptyWord]
  simp only [List.isEmpty_iff, ne_eq, ite_not]

/-- The classes of the cells in a row. -/
def columnClasses : List String :=
  ["grammar-table-cell-primary step-number", "stack", "input", "action", "production"]

/-- What stands in the row of a step. -/
def rowPieces (r : Record) : List Markup :=
  (columnClasses.zip (rowTexts r)).map fun e => textIn "td" [cls ("grammar-table-cell " ++ e.1)] e.2

theorem row_eq (r : Record) : row r = block "tr" [cls (stepClass r)] (rowPieces r) := by
  have hproduction : (r.production.map Production.text).getD "" =
      match r.production with
      | none => ""
      | some p =>
        if p.authored ≠ "" then p.authored
        else p.lhs ++ " -> " ++ if p.rhs = [] then "ε" else " ".intercalate p.rhs := by
    cases r.production with
    | none => rfl
    | some p => exact text_production p
  rw [row, stackText_eq, Record.inputText, hproduction]
  rfl

theorem isSound_row (r : Record) : (row r).IsSound := by
  have hclass : '"' ∉ (stepClass r).toList := by
    rw [stepClass]
    refine Text.notMem_append ?_ (by decide)
    rcases r.entry with _ | _ | _ | _ <;> simp [Action.name]
  have hclasses : ∀ names ∈ columnClasses,
      IsCleanTag "td" [cls ("grammar-table-cell " ++ names)] := by
    decide
  rw [row_eq]
  refine isSound_block (isCleanTag_cons (by decide) (by decide) hclass) fun m hm => ?_
  obtain ⟨e, he, rfl⟩ := List.mem_map.mp hm
  exact isSound_textIn (hclasses e.1 (List.of_mem_zip he).1) _

theorem isFree_row (htr : name ≠ "tr") (htd : name ≠ "td") (r : Record) : IsFree name (row r) := by
  rw [row_eq]
  refine isFree_block (by decide) htr.symm fun m hm => ?_
  obtain ⟨e, -, rfl⟩ := List.mem_map.mp hm
  exact isFree_textIn (by decide) htd.symm _

theorem tags_row (h : r.entry.map Action.name = r'.entry.map Action.name) :
    tags (row r).tokens = tags (row r').tokens := by
  simp [row, stepClass, h]

theorem texts_row (r : Record) : texts "td" (row r).tokens = rowTexts r := by
  have hname : IsElementName "td" := by decide
  rw [row_eq, block, texts_element_of_ne hname (by decide), rowPieces, List.flatMap_map]
  simp only [texts_textIn hname]
  rw [← List.map_eq_flatMap]
  rfl

theorem isSound_heading : heading.IsSound := by
  refine isSound_block (by decide) (List.forall_mem_singleton.mpr (isSound_block (by decide) ?_))
  refine List.forall_mem_cons.mpr ⟨isSound_textIn (by decide) _, fun m hm => ?_⟩
  obtain ⟨title, -, rfl⟩ := List.mem_map.mp hm
  exact isSound_textIn (by decide) _

theorem isFree_heading (hname : name ∉ ["thead", "tr", "th"]) : IsFree name heading := by
  simp only [List.mem_cons, List.not_mem_nil, or_false, not_or] at hname
  refine isFree_block (by decide) (Ne.symm hname.1) (List.forall_mem_singleton.mpr
    (isFree_block (by decide) (Ne.symm hname.2.1) ?_))
  refine List.forall_mem_cons.mpr ⟨isFree_textIn (by decide) (Ne.symm hname.2.2) _, fun m hm => ?_⟩
  obtain ⟨title, -, rfl⟩ := List.mem_map.mp hm
  exact isFree_textIn (by decide) (Ne.symm hname.2.2) _

/-- The table of a trace. -/
def tablePiece (trace : List Record) : Markup :=
  block "table" [cls "grammar-table trace-table", ("role", "table"),
      ("aria-label", "Step-by-step parsing trace")]
    [heading, block "tbody" [] (trace.map row)]

theorem body_eq : body a trace title =
    block "div" [cls a.traceClasses] [textIn "h3" [] title, tablePiece trace] := rfl

theorem isSound_body (ha : '"' ∉ a.traceClasses.toList) : (body a trace title).IsSound := by
  have hrows : ∀ m ∈ trace.map row, m.IsSound := fun m hm => by
    obtain ⟨s, -, rfl⟩ := List.mem_map.mp hm
    exact isSound_row s
  have htable : (tablePiece trace).IsSound := isSound_block (by decide)
    (List.forall_mem_cons.mpr ⟨isSound_heading,
      List.forall_mem_singleton.mpr (isSound_block (by decide) hrows)⟩)
  exact isSound_block (isCleanTag_cons (by decide) (by decide) ha)
    (List.forall_mem_cons.mpr ⟨isSound_textIn (by decide) _, List.forall_mem_singleton.mpr htable⟩)

/-- **The tags of a trace** depend on its shape. -/
theorem tags_body (h : shape trace = shape trace') :
    tags (body a trace title).tokens = tags (body a trace' title').tokens := by
  have hrows := flatMap_tags_congr _ _ (fun x y h => tags_row h) h
  rw [body_eq, body_eq, tags_tokens_block, tags_tokens_block]
  simp only [List.flatMap_cons, List.flatMap_nil, tablePiece, tags_tokens_block, tags_tokens_textIn,
    hrows]

theorem texts_h3_body : texts "h3" (body a trace title).tokens = [title] := by
  have hname : IsElementName "h3" := by decide
  have hrows : ∀ m ∈ trace.map row, IsFree "h3" m := fun m hm => by
    obtain ⟨s, -, rfl⟩ := List.mem_map.mp hm
    exact isFree_row (by decide) (by decide) s
  have htable : IsFree "h3" (tablePiece trace) := isFree_block (by decide) (by decide)
    (List.forall_mem_cons.mpr ⟨isFree_heading (by decide),
      List.forall_mem_singleton.mpr (isFree_block (by decide) (by decide) hrows)⟩)
  rw [body_eq, block, texts_element_of_ne hname (by decide), List.flatMap_cons,
    List.flatMap_singleton, texts_textIn hname, htable.texts_eq hname]
  rfl

theorem texts_td_body : texts "td" (body a trace title).tokens = trace.flatMap rowTexts := by
  have hname : IsElementName "td" := by decide
  rw [body_eq, block, texts_element_of_ne hname (by decide), List.flatMap_cons,
    List.flatMap_singleton, (isFree_textIn (by decide) (by decide) _).texts_eq hname,
    List.nil_append, tablePiece, block, texts_element_of_ne hname (by decide), List.flatMap_cons,
    List.flatMap_singleton, (isFree_heading (by decide)).texts_eq hname, List.nil_append, block,
    texts_element_of_ne hname (by decide), List.flatMap_map]
  simp only [texts_row]

theorem addsNoMarkup (ha : a.IsPlain) :
    AddsNoMarkup (fun x : List Record × String => tracePage a x.1 x.2) (fun x => shape x.1)
      fun x => inserted x.1 x.2 := by
  refine .ite (fun x => (body a x.1 x.2).tokens) (fun x y h => ?_)
    (isSound_emptyPiece ha.error_plain.quote_notMem _)
    (List.forall_mem_singleton.mpr (texts_emptyPiece _))
    (fun x => (isSound_body ha.trace_plain.quote_notMem).isExact) (fun x y h => tags_body h)
    fun x => List.forall_mem_cons.mpr ⟨texts_h3_body, List.forall_mem_singleton.mpr texts_td_body⟩
  simpa [shape] using congrArg List.isEmpty h

end TracePage

/-! ### Pages with a style sheet -/

theorem texts_styleTokens_append (name : String) (t : List Page.Token)
    (hname : name ∉ ["style", "/style"]) : texts name (a.styleTokens ++ t) = texts name t := by
  simp only [List.mem_cons, List.not_mem_nil, or_false, not_or] at hname
  rw [texts, elements_styleTokens_append hname.1 hname.2, texts]

/-- The piece that shows a message. -/
def messagePiece (a : Appearance) (message title : String) : Markup :=
  block "div" [cls a.errorClasses] [textIn "h4" [] title, textIn "p" [cls "error-text"] message]

theorem texts_h4_messagePiece (message title : String) :
    texts "h4" (messagePiece a message title).tokens = [title] := by
  have hname : IsElementName "h4" := by decide
  rw [messagePiece, block, texts_element_of_ne hname (by decide), List.flatMap_cons,
    List.flatMap_singleton, texts_textIn hname,
    (isFree_textIn (by decide) (by decide) _).texts_eq hname, List.append_nil]

theorem texts_p_messagePiece (message title : String) :
    texts "p" (messagePiece a message title).tokens = [message] := by
  have hname : IsElementName "p" := by decide
  rw [messagePiece, block, texts_element_of_ne hname (by decide), List.flatMap_cons,
    List.flatMap_singleton, texts_textIn hname,
    (isFree_textIn (by decide) (by decide) _).texts_eq hname, List.nil_append]

theorem messagePage_addsNoMarkup (ha : a.IsPlain) :
    AddsNoMarkup (fun x : String × String => messagePage a x.1 x.2) (fun _ => ())
      fun x => [("h4", [x.2]), ("p", [x.1])] := by
  refine .of_isExact (fun x => a.styleTokens ++ (messagePiece a x.1 x.2).tokens) (fun x => ?_)
    (fun x y _ => ?_) fun x => List.forall_mem_cons.mpr
      ⟨(texts_styleTokens_append "h4" _ (by decide)).trans (texts_h4_messagePiece _ _),
        List.forall_mem_singleton.mpr
          ((texts_styleTokens_append "p" _ (by decide)).trans (texts_p_messagePiece _ _))⟩
  · exact Markup.IsSound.isExact_page (isSound_block
      (isCleanTag_cons (by decide) (by decide) ha.error_plain.quote_notMem)
      (List.forall_mem_cons.mpr ⟨isSound_textIn (by decide) _,
        List.forall_mem_singleton.mpr (isSound_textIn (by decide) _)⟩))
  · simp only [tags_append, messagePiece, tags_tokens_block, List.flatMap_cons, tags_tokens_textIn,
      List.flatMap_nil]

/-! ### Problems -/

namespace ProblemPage

/-- The piece that shows the problems of a grammar. -/
def piece (notices : List Notice) : Markup :=
  block "div" [cls "grammar-errors"] [
    textIn "h4" [] s!"Grammar Errors ({notices.length} found)",
    block "ul" [] (notices.map fun n => textIn "li" [cls "error-item"] n.text)]

/-- The texts on the page of the problems of a grammar. -/
def inserted (notices : List Notice) : List (String × List String) :=
  if notices.isEmpty then [("div", ["No grammar errors found."])]
  else
    [("li", notices.map fun n =>
      ((n.row.map fun row => "Row " ++ row ++ ": ").getD "") ++ n.message)]

variable {notices notices' : List Notice}

/-- **A notice on one line shows its row and its message**, and nothing else. -/
theorem text_notice (n : Notice) :
    n.text = ((n.row.map fun row => "Row " ++ row ++ ": ").getD "") ++ n.message := by
  rcases n with ⟨_ | row, message⟩
  · simp [Notice.text]
  · simp [Notice.text, toString]

theorem isSound_piece : (piece notices).IsSound := by
  have hitems : ∀ m ∈ notices.map fun n => textIn "li" [cls "error-item"] n.text, m.IsSound :=
    fun m hm => by
      obtain ⟨n, -, rfl⟩ := List.mem_map.mp hm
      exact isSound_textIn (by decide) _
  exact isSound_block (by decide) (List.forall_mem_cons.mpr ⟨isSound_textIn (by decide) _,
    List.forall_mem_singleton.mpr (isSound_block (by decide) hitems)⟩)

theorem tags_piece (h : notices.length = notices'.length) :
    tags (piece notices).tokens = tags (piece notices').tokens := by
  have hitems : ((notices.map fun n => textIn "li" [cls "error-item"] n.text).flatMap fun m =>
      tags m.tokens) =
        (notices'.map fun n => textIn "li" [cls "error-item"] n.text).flatMap fun m =>
          tags m.tokens :=
    flatMap_tags_congr_of_length (fun x y => by simp) h
  simp only [piece, tags_tokens_block, List.flatMap_cons, List.flatMap_nil, tags_tokens_textIn,
    hitems]

theorem texts_li_piece : texts "li" (piece notices).tokens = notices.map fun n =>
    ((n.row.map fun row => "Row " ++ row ++ ": ").getD "") ++ n.message := by
  have hname : IsElementName "li" := by decide
  rw [piece, block, texts_element_of_ne hname (by decide), List.flatMap_cons,
    List.flatMap_singleton, (isFree_textIn (by decide) (by decide) _).texts_eq hname,
    List.nil_append, block, texts_element_of_ne hname (by decide), List.flatMap_map]
  simp only [texts_textIn hname, text_notice]
  rw [← List.map_eq_flatMap]

theorem addsNoMarkup : AddsNoMarkup (problemsPage a) List.length inserted := by
  refine .ite (fun notices => a.styleTokens ++ (piece notices).tokens) (fun x y h => ?_)
    (isSound_textIn (by decide) _) (List.forall_mem_singleton.mpr (texts_textIn (by decide) _))
    (fun notices => isSound_piece.isExact_page) (fun x y h => ?_)
    fun notices => List.forall_mem_singleton.mpr
      ((texts_styleTokens_append "li" _ (by decide)).trans texts_li_piece)
  · rw [Bool.eq_iff_iff, List.isEmpty_iff_length_eq_zero, List.isEmpty_iff_length_eq_zero, h]
  · rw [tags_append, tags_append, tags_piece h]

end ProblemPage

/-! ### Conflicts -/

namespace ConflictPage

/-- The piece that shows the conflicts of a table. -/
def piece (conflicts : List Conflict) : Markup :=
  block "div" [cls "conflict-report"] (
    textIn "h4" [] s!"Grammar Conflicts ({conflicts.length} found)"
      :: (conflicts.zipIdx 1).map fun (c, number) => part c number)

/-- The shape of a conflict: how many items it lists for each of its actions. -/
def partShape (c : Conflict) : ℕ × ℕ :=
  (c.existingItems.length, c.incomingItems.length)

/-- The lines about a conflict. -/
def lines (c : Conflict) : List String :=
  ["State: " ++ toString c.state, "Symbol: " ++ c.symbol, "Kept: " ++ c.existing.text,
    "Rejected: " ++ c.incoming.text]

/-- The texts on the page of the conflicts of a table. -/
def inserted (conflicts : List Conflict) : List (String × List String) :=
  if conflicts.isEmpty then [("div", ["No conflicts detected: the grammar is LR(0)."])]
  else
    [("h5", (conflicts.zipIdx 1).map fun (c, number) => s!"Conflict {number}: {c.kind.name}"),
     ("p", conflicts.flatMap lines),
     ("code", conflicts.flatMap fun c => c.existingItems ++ c.incomingItems)]

variable {conflicts conflicts' : List Conflict} {c c' : Conflict} {name : String}

theorem isSound_labelled (label content : String) : (labelled label content).IsSound :=
  isSound_inline (by decide) (List.forall_mem_cons.mpr ⟨isSound_textIn (by decide) _,
    List.forall_mem_singleton.mpr (.text _)⟩)

theorem isSound_itemList (items : List String) : (itemList items).IsSound := by
  refine isSound_block (by decide) fun m hm => ?_
  obtain ⟨i, -, rfl⟩ := List.mem_map.mp hm
  exact isSound_inline (by decide) (List.forall_mem_singleton.mpr (isSound_textIn (by decide) _))

theorem isFree_labelled (hname : name ∉ ["p", "strong"]) (label content : String) :
    IsFree name (labelled label content) := by
  simp only [List.mem_cons, List.not_mem_nil, or_false, not_or] at hname
  exact .element (by decide) (Ne.symm hname.1) (List.forall_mem_cons.mpr
    ⟨isFree_textIn (by decide) (Ne.symm hname.2) _, List.forall_mem_singleton.mpr (.text _)⟩)

theorem isFree_itemList (hname : name ∉ ["ul", "li", "code"]) (items : List String) :
    IsFree name (itemList items) := by
  simp only [List.mem_cons, List.not_mem_nil, or_false, not_or] at hname
  refine isFree_block (by decide) (Ne.symm hname.1) fun m hm => ?_
  obtain ⟨i, -, rfl⟩ := List.mem_map.mp hm
  exact .element (by decide) (Ne.symm hname.2.1)
    (List.forall_mem_singleton.mpr (isFree_textIn (by decide) (Ne.symm hname.2.2) _))

theorem texts_labelled (label content : String) :
    texts "p" (labelled label content).tokens = [label ++ ": " ++ content] := by
  have hfree : ∀ m ∈ [textIn "strong" [] (label ++ ":"), text (" " ++ content)], IsFree "p" m :=
    List.forall_mem_cons.mpr ⟨isFree_textIn (by decide) (by decide) _,
      List.forall_mem_singleton.mpr (.text _)⟩
  have hcolon : label ++ ":" ++ (" " ++ content) = label ++ ": " ++ content := by
    rw [← String.toList_inj]
    simp
  rw [labelled, texts_inline_of_isFree (by decide) hfree, List.map_cons, List.map_singleton,
    textOf_textIn, textOf_text, String.join_cons, String.join_cons, ← hcolon]
  simp

theorem tags_labelled (label content : String) : tags (labelled label content).tokens =
    [.tag "p" [], .tag "strong" [], closing "strong", closing "p"] := by
  simp [labelled]

theorem texts_itemList (items : List String) : texts "code" (itemList items).tokens = items := by
  have hname : IsElementName "code" := by decide
  have hitem : ∀ i, texts "code" (Markup.inline "li" [] [textIn "code" [] i]).tokens = [i] :=
    fun i => by
      rw [Markup.inline, texts_element_of_ne hname (by decide), List.flatMap_singleton,
        texts_textIn hname]
  rw [itemList, block, texts_element_of_ne hname (by decide), List.flatMap_map]
  simp only [hitem]
  rw [← List.map_eq_flatMap, List.map_id']

theorem tags_itemList {items items' : List String} (h : items.length = items'.length) :
    tags (itemList items).tokens = tags (itemList items').tokens := by
  have hitems : ((items.map fun i => Markup.inline "li" [] [textIn "code" [] i]).flatMap fun m =>
      tags m.tokens) = (items'.map fun i => Markup.inline "li" [] [textIn "code" [] i]).flatMap
        fun m => tags m.tokens :=
    flatMap_tags_congr_of_length (fun x y => by simp) h
  rw [itemList, itemList, tags_tokens_block, tags_tokens_block, hitems]

theorem isSound_part (number : ℕ) : (part c number).IsSound := by
  refine isSound_block (by decide) ?_
  simp only [List.forall_mem_cons, List.not_mem_nil, false_imp_iff, implies_true, and_true]
  exact ⟨isSound_textIn (by decide) _, isSound_labelled _ _, isSound_labelled _ _,
    isSound_labelled _ _, isSound_itemList _, isSound_labelled _ _, isSound_itemList _⟩

theorem tags_part (number number' : ℕ) (h : partShape c = partShape c') :
    tags (part c number).tokens = tags (part c' number').tokens := by
  obtain ⟨hexisting, hincoming⟩ := Prod.mk.inj h
  simp only [part, tags_tokens_block, List.flatMap_cons, List.flatMap_nil, tags_tokens_textIn,
    tags_labelled, tags_itemList hexisting, tags_itemList hincoming]

theorem texts_h5_part (number : ℕ) : texts "h5" (part c number).tokens =
    [s!"Conflict {number}: {c.kind.name}"] := by
  have hname : IsElementName "h5" := by decide
  have hlabelled : ∀ label content, texts "h5" (labelled label content).tokens = [] :=
    fun _ _ => (isFree_labelled (by decide) _ _).texts_eq hname
  have hitems : ∀ items, texts "h5" (itemList items).tokens = [] :=
    fun _ => (isFree_itemList (by decide) _).texts_eq hname
  rw [part, block, texts_element_of_ne hname (by decide)]
  simp only [List.flatMap_cons, List.flatMap_nil, texts_textIn hname, hlabelled, hitems,
    List.append_nil]

theorem texts_p_part (number : ℕ) : texts "p" (part c number).tokens = lines c := by
  have hname : IsElementName "p" := by decide
  have hheading : texts "p" (textIn "h5" [] s!"Conflict {number}: {c.kind.name}").tokens = [] :=
    (isFree_textIn (by decide) (by decide) _).texts_eq hname
  have hitems : ∀ items, texts "p" (itemList items).tokens = [] :=
    fun _ => (isFree_itemList (by decide) _).texts_eq hname
  rw [part, block, texts_element_of_ne hname (by decide)]
  simp only [List.flatMap_cons, List.flatMap_nil, hheading, texts_labelled, hitems,
    List.append_nil, List.nil_append]
  rfl

theorem texts_code_part (number : ℕ) : texts "code" (part c number).tokens =
    c.existingItems ++ c.incomingItems := by
  have hname : IsElementName "code" := by decide
  have hheading : texts "code" (textIn "h5" [] s!"Conflict {number}: {c.kind.name}").tokens = [] :=
    (isFree_textIn (by decide) (by decide) _).texts_eq hname
  have hlabelled : ∀ label content, texts "code" (labelled label content).tokens = [] :=
    fun _ _ => (isFree_labelled (by decide) _ _).texts_eq hname
  rw [part, block, texts_element_of_ne hname (by decide)]
  simp only [List.flatMap_cons, List.flatMap_nil, hheading, texts_itemList, hlabelled,
    List.append_nil, List.nil_append]

/-- What is read of the parts about all conflicts. -/
theorem texts_piece (hname : IsElementName name) (hne : name ∉ ["div", "h4"]) :
    texts name (piece conflicts).tokens =
      (conflicts.zipIdx 1).flatMap fun (c, number) => texts name (part c number).tokens := by
  simp only [List.mem_cons, List.not_mem_nil, or_false, not_or] at hne
  rw [piece, block, texts_element_of_ne hname (Ne.symm hne.1), List.flatMap_cons,
    (isFree_textIn (by decide) (Ne.symm hne.2) _).texts_eq hname, List.nil_append,
    List.flatMap_map]

/-- What does not depend on the numbers of the conflicts is read of one after the other. -/
theorem flatMap_zipIdx {α β : Type} (f : α → List β) (l : List α) (n : ℕ) :
    ((l.zipIdx n).flatMap fun (x, _) => f x) = l.flatMap f := by
  conv_rhs => rw [← List.zipIdx_map_fst n l]
  rw [List.flatMap_map]

theorem addsNoMarkup : AddsNoMarkup (conflictsPage a) (List.map partShape) inserted := by
  have hsound : ∀ conflicts, (piece conflicts).IsSound := fun conflicts => by
    refine isSound_block (by decide) (List.forall_mem_cons.mpr
      ⟨isSound_textIn (by decide) _, fun m hm => ?_⟩)
    obtain ⟨⟨c, number⟩, -, rfl⟩ := List.mem_map.mp hm
    exact isSound_part number
  refine .ite (fun conflicts => a.styleTokens ++ (piece conflicts).tokens) (fun x y h => ?_)
    (isSound_textIn (by decide) _) (List.forall_mem_singleton.mpr (texts_textIn (by decide) _))
    (fun conflicts => (hsound conflicts).isExact_page) (fun x y h => ?_) fun conflicts => ?_
  · simpa using congrArg List.isEmpty h
  · -- the number of a part is a text in it and does not bear on its tags
    have hshapes : (x.zipIdx 1).map (fun e => partShape e.1) =
        (y.zipIdx 1).map fun e => partShape e.1 := by
      have hfst : ∀ l : List Conflict, (l.zipIdx 1).map (fun e => partShape e.1) =
          l.map partShape := fun l => by
        conv_rhs => rw [← List.zipIdx_map_fst 1 l, List.map_map]
        rfl
      rw [hfst, hfst, h]
    have hparts := flatMap_tags_congr _ _ (fun e e' h => tags_part e.2 e'.2 h) hshapes
    rw [tags_append, tags_append, piece, piece, tags_tokens_block, tags_tokens_block,
      List.flatMap_cons, List.flatMap_cons, tags_tokens_textIn, tags_tokens_textIn, hparts]
  · -- all that is read stands in the parts: the style and the heading have other names
    have hread : ∀ name, IsElementName name → name ∉ ["style", "/style"] → name ∉ ["div", "h4"] →
        texts name (a.styleTokens ++ (piece conflicts).tokens) =
          (conflicts.zipIdx 1).flatMap fun (c, number) => texts name (part c number).tokens :=
      fun name hname hstyle hne => (texts_styleTokens_append name _ hstyle).trans
        (texts_piece hname hne)
    refine List.forall_mem_cons.mpr ⟨?_, List.forall_mem_cons.mpr ⟨?_,
      List.forall_mem_singleton.mpr ?_⟩⟩
    · refine (hread "h5" (by decide) (by decide) (by decide)).trans ?_
      simp only [texts_h5_part]
      rw [← List.map_eq_flatMap]
    · refine (hread "p" (by decide) (by decide) (by decide)).trans ?_
      simp only [texts_p_part]
      exact flatMap_zipIdx lines conflicts 1
    · refine (hread "code" (by decide) (by decide) (by decide)).trans ?_
      simp only [texts_code_part]
      exact flatMap_zipIdx (fun c => c.existingItems ++ c.incomingItems) conflicts 1

end ConflictPage

/-! ### All pages -/

/-- What an object says about a problem: its message is the text of the notice, and a given row is
its row. -/
structure Notice.Says (fields : List (String × Value)) (n : Notice) : Prop where
  /-- The message of the object is that of the notice. -/
  message_eq : fields.lookup "message" = some (.str n.message)
  /-- The row of the object, if one is given, is that of the notice. -/
  row_eq : n.row = if (Value.field fields "rowId").isGiven then
    some (Value.field fields "rowId").text else none

/-- **Objects whose messages are texts are notices** that say the same. -/
theorem Notice.exists_mapM_ofFields {objects : List (List (String × Value))}
    (h : ∀ fields ∈ objects, ∃ message, fields.lookup "message" = some (.str message)) :
    ∃ notices, objects.mapM ofFields = .ok notices ∧ List.Forall₂ Says objects notices := by
  induction objects with
  | nil => exact ⟨[], rfl, .nil⟩
  | cons fields objects ih =>
    obtain ⟨⟨message, hmessage⟩, hobjects⟩ := List.forall_mem_cons.mp h
    obtain ⟨notices, hnotices, hsays⟩ := ih hobjects
    let n : Notice := ⟨if (Value.field fields "rowId").isGiven then
      some (Value.field fields "rowId").text else none, message⟩
    have hnotice : ofFields fields = .ok n := by
      rw [ofFields, hmessage]
    refine ⟨n :: notices, ?_, .cons ⟨hmessage, rfl⟩ hsays⟩
    rw [List.mapM_cons, hnotice, hnotices]
    rfl

/-- **No text adds mark-up to a page.** The pages of tables, traces, messages, conflicts and
problems take no mark-up from the texts in them, if the classes that the user has chosen hold no
mark. Problems may come as objects whose messages are texts. -/
theorem addsNoMarkup_pages (ha : a.IsPlain) :
    AddsNoMarkup (fun x : Table × Augmented => tablePage a x.1 x.2)
      (fun x => TablePage.shape x.1 x.2) (fun x => TablePage.inserted x.1 x.2) ∧
    AddsNoMarkup (fun x : List Record × String => tracePage a x.1 x.2)
      (fun x => TracePage.shape x.1) (fun x => TracePage.inserted x.1 x.2) ∧
    AddsNoMarkup (fun x : String × String => messagePage a x.1 x.2) (fun _ => ())
      (fun x => [("h4", [x.2]), ("p", [x.1])]) ∧
    AddsNoMarkup (conflictsPage a) (List.map ConflictPage.partShape) ConflictPage.inserted ∧
    AddsNoMarkup (problemsPage a) List.length ProblemPage.inserted ∧
    ∀ objects : List (List (String × Value)),
      (∀ fields ∈ objects, ∃ message, fields.lookup "message" = some (.str message)) →
      ∃ notices, objects.mapM Notice.ofFields = .ok notices ∧
        List.Forall₂ Notice.Says objects notices :=
  ⟨TablePage.addsNoMarkup ha, TracePage.addsNoMarkup ha, messagePage_addsNoMarkup ha,
    ConflictPage.addsNoMarkup, ProblemPage.addsNoMarkup,
    fun _ hobjects => Notice.exists_mapM_ofFields hobjects⟩

/-- A message that looks like a tag is read as a text, and adds no tag. -/
theorem addsNoMarkup_pages_bold : Appearance.IsPlain {} ∧
    (read (messagePage {} "<b a=\"b\">" "'&amp;'")).map (texts "p") = some ["<b a=\"b\">"] ∧
    (read (messagePage {} "<b a=\"b\">" "'&amp;'")).map tags =
      (read (messagePage {} "" "")).map tags ∧
    ∃ notices, [[("message", Value.str "<b>")]].mapM Notice.ofFields = .ok notices ∧
      List.Forall₂ Notice.Says [[("message", Value.str "<b>")]] notices := by
  have hplain : Appearance.IsPlain {} := ⟨by decide, by decide, by decide⟩
  obtain ⟨-, -, hmessage, -, -, hobjects⟩ := addsNoMarkup_pages hplain
  exact ⟨hplain, hmessage.texts_eq ("<b a=\"b\">", "'&amp;'") ("p", ["<b a=\"b\">"]) (by simp),
    hmessage.tags_eq ("<b a=\"b\">", "'&amp;'") ("", "") rfl,
    hobjects _ (List.forall_mem_singleton.mpr ⟨"<b>", rfl⟩)⟩

end ShiftReduce.Render
