import ShiftReduce.Render.AutomatonGraph
import ShiftReduce.Proofs.Automaton.Canonical
import ShiftReduce.Proofs.Render.Dot

/-!
# The graph of an automaton shows the automaton

The text of the graph of an automaton is a title, the defaults, and one line for each state and for
each move, whatever the symbols are and whatever the title is: every line is one whole statement
(`ShiftReduce.Render.AutomatonGraph.Shows`).

What the graph draws of the automaton can be told from the text
(`ShiftReduce.Render.AutomatonGraph.decode`): of every state its number, what its box shows, and
whether it accepts and is the one to start in; and all moves. What a box shows is decided by the
appearance alone (`ShiftReduce.Render.AutomatonGraph.boxText`), so nothing else of the automaton is
left out (`ShiftReduce.Render.AutomatonGraph.automatonGraph_shows`).
-/

namespace ShiftReduce.Render

open Dot

namespace AutomatonGraph

/-! ### Drawings -/

/-- A state as it is drawn. -/
structure DrawnState where
  /-- The number of the state. -/
  id : ℕ
  /-- What its box shows. -/
  label : String
  /-- Whether the border of the box is double. -/
  isDouble : Bool
  /-- Whether the border of the box is bold. -/
  isBold : Bool
deriving DecidableEq

/-- An automaton as it is drawn. -/
structure Drawing where
  /-- The title. -/
  title : String
  /-- The states in order. -/
  states : List DrawnState
  /-- The moves in order. -/
  moves : List Transition
deriving DecidableEq

/-- **What the box of a state should show**: its number, and unless the graph is compact, its first
items, one to a line, with dots below them if it has more. -/
def boxText (a : Appearance) (g : Augmented) (s : State) : String :=
  let limit := (max 0 a.maxItems).toNat
  if a.compact then toString s.id
  else
    "\n".intercalate (("State " ++ toString s.id) :: (s.items.take limit).map g.itemText
      ++ if limit < s.items.length then ["..."] else [])

/-- **How a state should be drawn**: with a double border if it holds the item of a finished input,
and with a bold one if it is the state to start in. -/
def drawState (a : Appearance) (m : Automaton) (s : State) : DrawnState where
  id := s.id
  label := boxText a m.grammar s
  isDouble := Automaton.acceptItem ∈ s.items
  isBold := s.id = m.startState

/-- **How an automaton should be drawn.** -/
def draw (a : Appearance) (m : Automaton) (title : String) : Drawing where
  title
  states := m.states.map (drawState a m)
  moves := m.transitions

/-! ### Telling the drawing from the text -/

/-- The number of the state that a node is named after. -/
def stateNumber? (name : String) : Option ℕ :=
  if "state".toList <+: name.toList then some (Nat.ofDigitChars 10 (name.toList.drop 5) 0) else none

/-- The state that a statement declares. -/
def stateOf : Statement → Option DrawnState
  | .node name attributes =>
    match stateNumber? name, attributes.lookup "label" with
    | some id, some (.text label) =>
      some ⟨id, label, attributes.lookup "peripheries" = some (.word "2"),
        attributes.lookup "style" = some (.word "bold")⟩
    | _, _ => none
  | _ => none

/-- The move that a statement draws. -/
def moveOf : Statement → Option Transition
  | .edge source target attributes =>
    match stateNumber? source, attributes.lookup "label", stateNumber? target with
    | some source, some (.text symbol), some target => some ⟨source, symbol, target⟩
    | _, _, _ => none
  | _ => none

/-- **The drawing of a text.** -/
def decode (text : String) : Option Drawing :=
  (Graph.read text).map fun g =>
    ⟨g.title, g.statements.filterMap stateOf, g.statements.filterMap moveOf⟩

/-! ### Names and statements -/

theorem isWord_stateName (n : ℕ) : IsWord (stateName n) :=
  IsWord.append_toString (by decide +kernel) n

/-- The number of a state is told from its name. -/
theorem stateNumber?_stateName (n : ℕ) : stateNumber? (stateName n) = some n := by
  have hname : (stateName n).toList = "state".toList ++ Nat.toDigits 10 n := by
    simp [stateName]
  have hdrop : (stateName n).toList.drop "state".toList.length = Nat.toDigits 10 n := by
    rw [hname, List.drop_left]
  have hvalue : Nat.ofDigitChars 10 ((stateName n).toList.drop 5) 0 = n :=
    (congrArg (Nat.ofDigitChars 10 · 0) hdrop).trans Nat.ofDigitChars_ten_toDigits
  rw [stateNumber?, if_pos ⟨_, hname.symm⟩, hvalue]

/-- **The loop that stops at the limit** has lines for the first items, and dots if there are
more. -/
theorem itemLines_eq (limit : ℤ) (g : Augmented) (place : ℕ) (items : List Item) :
    itemLines limit g place items =
      (items.take (limit - place).toNat).map g.itemText ++
        if (limit - place).toNat < items.length then ["..."] else [] := by
  induction items generalizing place with
  | nil => simp [itemLines]
  | cons i rest ih =>
    rw [itemLines]
    split
    · next hfull =>
      -- the loop breaks at this place, which is at the limit or behind it
      have hnone : (limit - place).toNat = 0 := by omega
      simp [hnone]
    · next hroom =>
      obtain ⟨left, hleft⟩ : ∃ left, (limit - place).toNat = left + 1 :=
        ⟨(limit - place).toNat - 1, by omega⟩
      have hrest : (limit - (place + 1 : ℕ)).toNat = left := by omega
      rw [ih, hrest, hleft, List.take_succ_cons, List.map_cons, List.cons_append,
        List.length_cons]
      simp only [Nat.add_lt_add_iff_right]

/-- A state that holds an item has a line below its number: an item or, if none may be shown, the
dots. -/
theorem itemLines_ne_nil (limit : ℤ) (g : Augmented) (place : ℕ) {items : List Item}
    (h : items ≠ []) : itemLines limit g place items ≠ [] := by
  rcases items with _ | ⟨i, rest⟩
  · exact absurd rfl h
  · rw [itemLines]
    split <;> exact List.cons_ne_nil _ _

/-- What the box of a state shows is what it should show, if the state holds an item. -/
theorem stateLabel_eq (a : Appearance) (g : Augmented) {s : State} (hs : s.items ≠ []) :
    stateLabel a g s = boxText a g s := by
  have hlimit : (max 0 a.maxItems).toNat = (a.maxItems - (0 : ℕ)).toNat := by omega
  rw [stateLabel, boxText]
  simp only [hlimit]
  split
  · rfl
  · rw [List.cons_append, ← itemLines_eq]
    obtain ⟨first, rest, hlines⟩ :=
      List.exists_cons_of_ne_nil (itemLines_ne_nil a.maxItems g 0 hs)
    rw [hlines, String.intercalate_cons_cons]
    rfl

/-- What a graph begins with. -/
def defaults : List Statement :=
  [.setting ("rankdir", .word "LR"),
   .node "node" [("shape", .word "box"), ("fontname", .text "Courier"), ("fontsize", .word "9")],
   .node "edge" [("fontname", .text "Arial"), ("fontsize", .word "9")]]

theorem isClean_stateNode (a : Appearance) (m : Automaton) (s : State) :
    (stateNode a m s).IsClean := by
  have hlabel : IsWord "label" := by decide +kernel
  refine ⟨isWord_stateName s.id, ?_⟩
  split_ifs <;> exact List.forall_mem_cons.mpr ⟨⟨hlabel, trivial⟩, by decide +kernel⟩

theorem isClean_moveEdge (t : Transition) : (moveEdge t).IsClean := by
  have hlabel : IsWord "label" := by decide +kernel
  exact ⟨isWord_stateName _, isWord_stateName _, List.forall_mem_singleton.mpr ⟨hlabel, trivial⟩⟩

theorem isClean_automatonGraph (a : Appearance) (m : Automaton) (title : String) :
    (automatonGraph a m title).IsClean := by
  have hdefaults : ∀ x ∈ defaults, x.IsClean := by decide +kernel
  refine List.forall_mem_append.mpr ⟨List.forall_mem_append.mpr ⟨hdefaults, ?_⟩, ?_⟩
  · exact List.forall_mem_map.mpr fun s _ => isClean_stateNode a m s
  · exact List.forall_mem_map.mpr fun t _ => isClean_moveEdge t

/-! ### What is told from the statements -/

section Told

variable {a : Appearance} {m : Automaton} {s : State}

/-- What is looked up in the attributes of a state. -/
theorem lookup_attributes (label : String) (P Q : Prop) [Decidable P] [Decidable Q] :
    let attributes := ([("label", .text label)] ++ (if P then [("peripheries", .word "2")] else [])
      ++ (if Q then [("style", .word "bold")] else []) : List Attribute)
    attributes.lookup "label" = some (.text label) ∧
      (attributes.lookup "peripheries" = some (.word "2") ↔ P) ∧
      (attributes.lookup "style" = some (.word "bold") ↔ Q) := by
  by_cases hP : P <;> by_cases hQ : Q <;> simp [hP, hQ, List.lookup_cons]

/-- **A state is told from its node**, if it holds an item and its number is its own. -/
theorem stateOf_stateNode (hitems : s.items ≠ [])
    (haccepting : s.id ∈ m.accepting ↔ Automaton.acceptItem ∈ s.items) :
    stateOf (stateNode a m s) = some (drawState a m s) := by
  obtain ⟨hlabel, hdouble, hbold⟩ := lookup_attributes (stateLabel a m.grammar s)
    (s.id ∈ m.accepting) (s.id = m.startState)
  rw [stateNode, stateOf, stateNumber?_stateName, hlabel, drawState,
    ← stateLabel_eq a m.grammar hitems]
  simp only [Option.some.injEq, DrawnState.mk.injEq, true_and, decide_eq_decide]
  exact ⟨hdouble.trans haccepting, hbold⟩

theorem moveOf_moveEdge (t : Transition) : moveOf (moveEdge t) = some t := by
  rw [moveEdge, moveOf, stateNumber?_stateName, stateNumber?_stateName]
  rfl

/-- **The drawing is told from the statements.** -/
theorem filterMap_statements (title : String) (hitems : ∀ s ∈ m.states, s.items ≠ [])
    (haccepting : ∀ s ∈ m.states, s.id ∈ m.accepting ↔ Automaton.acceptItem ∈ s.items) :
    (automatonGraph a m title).statements.filterMap stateOf =
        m.states.map (drawState a m) ∧
      (automatonGraph a m title).statements.filterMap moveOf = m.transitions := by
  have hsplit : (automatonGraph a m title).statements =
      defaults ++ m.states.map (stateNode a m) ++ m.transitions.map moveEdge := rfl
  have hdefaults : defaults.filterMap stateOf = [] ∧ defaults.filterMap moveOf = [] := by
    decide +kernel
  have hstates : (m.states.map (stateNode a m)).filterMap stateOf =
      m.states.map (drawState a m) := by
    rw [List.filterMap_map, ← List.filterMap_eq_map]
    exact List.filterMap_congr fun s hs => stateOf_stateNode (hitems s hs) (haccepting s hs)
  have hmoves : (m.transitions.map moveEdge).filterMap moveOf = m.transitions := by
    simp only [List.filterMap_map, Function.comp_def, moveOf_moveEdge, List.filterMap_some]
  have hothers : (m.transitions.map moveEdge).filterMap stateOf = [] ∧
      (m.states.map (stateNode a m)).filterMap moveOf = [] := by
    rw [List.filterMap_eq_nil_iff, List.filterMap_eq_nil_iff]
    exact ⟨List.forall_mem_map.mpr fun _ _ => rfl, List.forall_mem_map.mpr fun _ _ => rfl⟩
  rw [hsplit]
  simp only [List.filterMap_append, hdefaults, hstates, hmoves, hothers, List.nil_append,
    List.append_nil, and_self]

end Told

/-! ### The text of the graph -/

/-- **A text shows an automaton** under a title. -/
structure Shows (a : Appearance) (m : Automaton) (title text : String) : Prop where
  /-- Each line is the title, one whole statement of the graph, or the end. -/
  lines : (automatonGraph a m title).IsLineByLine text
  /-- There is one line for each state and one for each move, and the title, the end and three
  defaults have theirs. -/
  length_lines :
    (text.toList.splitOn '\n').length = m.states.length + m.transitions.length + 5
  /-- The drawing of the automaton is told from the text. -/
  drawing : decode text = some (draw a m title)

variable {A : Augmented}

theorem decode_write (hA : 0 < A.productions.size) (a : Appearance) (title : String) :
    decode (automatonGraph a (.ofAugmented A) title).write =
      some (draw a (.ofAugmented A) title) := by
  obtain ⟨hstates, hmoves⟩ := filterMap_statements (a := a) title
    (fun _ => Automaton.items_ne_nil hA) (fun _ => Automaton.mem_accepting_iff hA)
  rw [decode, Graph.read_write (isClean_automatonGraph a _ title), Option.map_some, hstates, hmoves]
  rfl

theorem shows_automatonGraph (hA : 0 < A.productions.size) (a : Appearance) (title : String) :
    Shows a (.ofAugmented A) title (automatonGraph a (.ofAugmented A) title).write where
  lines := Graph.isLineByLine_write (isClean_automatonGraph a _ title)
  length_lines := by
    rw [Graph.splitOn_write (isClean_automatonGraph a _ title)]
    simp [Graph.lines, automatonGraph]
    omega
  drawing := decode_write hA a title

/-- **The text of the graph of an automaton shows the automaton and loses nothing**, whatever its
symbols and the title are: its lines are whole statements, and the title, the states with what their
boxes should show, the accepting ones, the one to start in, and all moves are told from it. So texts
that are the same draw the same. -/
theorem automatonGraph_shows {g : Grammar} {settings : Settings} {m : Automaton}
    (hm : Automaton.ofGrammar g settings = .ok m) (a : Appearance) (title : String) :
    Shows a m title (automatonGraph a m title).write ∧
      ∀ (g' : Grammar) (settings' : Settings) (m' : Automaton) (a' : Appearance) (title' : String),
        Automaton.ofGrammar g' settings' = .ok m' →
        (automatonGraph a' m' title').write = (automatonGraph a m title).write →
        draw a' m' title' = draw a m title := by
  obtain ⟨A, hA, rfl⟩ := Automaton.exists_ofAugmented hm
  have hsize := Augmented.size_pos_of_ofGrammar hA
  refine ⟨shows_automatonGraph hsize a title, fun g' settings' m' a' title' hm' htext => ?_⟩
  obtain ⟨A', hA', rfl⟩ := Automaton.exists_ofAugmented hm'
  have hdecoded := congrArg decode htext
  rw [decode_write (Augmented.size_pos_of_ofGrammar hA'), decode_write hsize] at hdecoded
  exact Option.some.inj hdecoded

/-- A grammar whose symbols hold what could end a quotation, a statement or a line. -/
def quotingGrammar : Grammar where
  start := "S\""
  nonTerminals := .ofList ["S\""]
  terminals := .ofList ["a\\", "];\n"]
  productions := [⟨0, "S\"", ["a\\", "];\n"], ""⟩]

/-- What is drawn of the automaton of that grammar, with one item to a box. -/
def quotingDrawing : Drawing where
  title := "\"];\n"
  states :=
    [⟨0, "State 0\nS\"' -> • S\"\n...", false, true⟩,
     ⟨1, "State 1\nS\"' -> S\" •", true, false⟩,
     ⟨2, "State 2\nS\" -> a\\ • ];\n", false, false⟩,
     ⟨3, "State 3\nS\" -> a\\ ];\n •", false, false⟩]
  moves := [⟨0, "S\"", 1⟩, ⟨0, "a\\", 2⟩, ⟨2, "];\n", 3⟩]

theorem automatonGraph_shows_quoting :
    ∃ m, Automaton.ofGrammar quotingGrammar {} = .ok m ∧
      decode (automatonGraph { maxItems := 1 } m quotingDrawing.title).write =
        some quotingDrawing := by
  obtain ⟨m, hm⟩ : ∃ m, Automaton.ofGrammar quotingGrammar {} = .ok m := ⟨_, rfl⟩
  have hdrawing : (Automaton.ofGrammar quotingGrammar {}).toOption.map
      (fun m => draw { maxItems := 1 } m quotingDrawing.title) = some quotingDrawing := by
    decide +kernel
  rw [hm] at hdrawing
  exact ⟨m, hm,
    (automatonGraph_shows hm { maxItems := 1 } quotingDrawing.title).1.drawing.trans hdrawing⟩

end AutomatonGraph

end ShiftReduce.Render
