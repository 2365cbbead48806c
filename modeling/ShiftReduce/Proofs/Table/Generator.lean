import ShiftReduce.Proofs.Automaton.Discovery
import ShiftReduce.Proofs.Item.Signed
import ShiftReduce.Proofs.Table.Candidates
import ShiftReduce.Table.Generator

/-!
# A generator makes the table of an automaton

A generator of tables enters the moves of a state as they come, those that shift and those that are
states to go to, and reads each item before it does something about it. The table of an automaton is
filled by two folds instead, and no item is asked whether it can be read. For the automaton of a
grammar both come to the same (`ShiftReduce.Table.generate?_ofAugmented`): moves that shift and
states to go to are entered into different parts of the table
(`ShiftReduce.Table.enter_enter`), no two moves of a state are over one symbol
(`ShiftReduce.Draft.row_draft_ofAugmented`), and every item is one of the grammar, which can be read
(`ShiftReduce.Table.conflictBetween?_draft`).
-/

namespace ShiftReduce

open Automaton

/-! ### The moves of a state -/

namespace Draft

/-- Values that are put under different keys are all kept, in order. -/
theorem foldl_put_of_nodup {α κ ν : Type} [DecidableEq κ] {key : α → κ} {value : α → ν}
    {l : List α} {row : List (κ × ν)} (h : (row.map (·.1) ++ l.map key).Nodup) :
    l.foldl (fun row a => Association.put row (key a) (value a)) row =
      row ++ l.map fun a => (key a, value a) := by
  induction l generalizing row with
  | nil => simp
  | cons a l ih =>
    rw [List.map_cons, List.append_cons] at h
    have hnew : key a ∉ row.map (·.1) := fun hmem =>
      (List.disjoint_of_nodup_append (List.nodup_append.mp h |>.1)) hmem (by simp)
    rw [List.foldl_cons, Association.put_of_notMem hnew, ih (by simpa using h), List.map_cons,
      List.append_assoc, List.singleton_append]

/-- The row of a state is made of the moves that leave it. -/
theorem row_eq_foldl (m : Draft) (id : ℤ) :
    m.row id = (m.transitions.filter (·.source = id)).foldl
      (fun row t => Association.put row t.symbol t.target) [] := by
  -- a move of another state leaves the row as it is, also if the row is not empty
  have hfrom : ∀ (ts : List DraftMove) (rows : List (ℤ × List (Symbol × ℤ))),
      ((ts.foldl (fun rows t => Association.put rows t.source
        (Association.put ((rows.lookup t.source).getD []) t.symbol t.target)) rows).lookup id).getD
          [] = (ts.filter (·.source = id)).foldl
            (fun row t => Association.put row t.symbol t.target) ((rows.lookup id).getD []) := by
    intro ts
    induction ts with
    | nil => exact fun _ => rfl
    | cons t ts ih =>
      intro rows
      rw [List.foldl_cons, ih, Association.lookup_put]
      by_cases hid : id = t.source
      · simp [hid]
      · simp [hid, Ne.symm hid]
  exact hfrom m.transitions []

variable {A : Augmented} {s : State}

/-- **The row of a state of the automaton of a grammar** lists its moves. -/
theorem row_draft_ofAugmented (hA : 0 < A.productions.size) (hs : s ∈ (ofAugmented A).states) :
    (ofAugmented A).draft.row s.id =
      ((ofAugmented A).movesFrom s.id).map fun t => (t.symbol, (t.target : ℤ)) := by
  have hmoves : (ofAugmented A).draft.transitions.filter (·.source = (s.id : ℤ)) =
      ((ofAugmented A).movesFrom s.id).map fun t => ⟨t.source, t.symbol, t.target⟩ := by
    simp only [draft, movesFrom, List.filter_map]
    congr 1
    exact List.filter_congr fun t _ => decide_eq_decide.mpr Int.ofNat_inj
  rw [row_eq_foldl, hmoves, List.foldl_map]
  refine foldl_put_of_nodup ?_
  rw [List.map_nil, List.nil_append, map_symbol_movesFrom hA hs]
  exact A.nodup_symbolsAfterDot s.items

end Draft

namespace Table

variable {g : Augmented} {m : Automaton} {s : State} {x : Symbol}

/-! ### Adding an action for a state of the grammar -/

/-- All items of a state are about productions of a grammar. -/
def IsCovered (g : Augmented) (s : State) : Prop :=
  ∀ i ∈ s.items, i.production < g.productions.size

theorem isCovered_ofAugmented {A : Augmented} (hA : 0 < A.productions.size)
    (hs : s ∈ (ofAugmented A).states) : IsCovered A s := fun i hi =>
  (Augmented.mem_items.mp (Holds.mem_items (i := i) hA ⟨s, hs, rfl, hi⟩)).1

theorem justifying?_draft (h : IsCovered g s) (x : Symbol) (a : Action) :
    justifying? g s.draft x a = some ((justifying g s x a).map .ofItem) := by
  cases a with
  | shift target =>
    exact filter?_map_ofItem fun i hi => by rw [Augmented.nextSymbol?_ofItem (h i hi)]; rfl
  | reduce p =>
    refine filter?_map_ofItem fun i hi => ?_
    rw [Augmented.isComplete?_ofItem (h i hi)]
    by_cases hp : (i.production : ℤ) = p <;> simp [SignedItem.ofItem, hp]
  | accept =>
    refine filter?_map_ofItem fun i hi => ?_
    rw [Augmented.isComplete?_ofItem (h i hi)]
    by_cases hp : i.production = 0 <;> simp [SignedItem.ofItem, hp]

theorem justifying_subset (g : Augmented) (s : State) (x : Symbol) (a : Action) :
    justifying g s x a ⊆ s.items := by
  cases a <;> exact fun _ hi => (List.mem_filter.mp hi).1

theorem justification?_draft (h : IsCovered g s) (x : Symbol) (a : Action) :
    justification? g s.draft x a = some ((justifying g s x a).map g.itemText) := by
  rw [justification?, justifying?_draft h]
  exact mapM_map_ofItem fun i hi =>
    Augmented.itemText?_ofItem (h i (justifying_subset g s x a hi))

/-- **The conflicts of a state of the grammar can be told of.** -/
theorem conflictBetween?_draft (h : IsCovered g s) (x : Symbol) (existing incoming : Action) :
    conflictBetween? g s.draft x existing incoming =
      some (conflictBetween g s x existing incoming) := by
  rw [conflictBetween?, justification?_draft h, justification?_draft h]
  rfl

/-- A write as something that is added. -/
def Write.addition (w : Write) : Addition :=
  ⟨w.state.draft, w.symbol, w.action⟩

theorem add?_addition {w : Write} (h : IsCovered g w.state) (t : Table) :
    add? g t w.addition = .ok (add g t w) := by
  have hcell : w.addition.cell = w.cell := rfl
  rw [add?, add, hcell]
  cases t.action.get? w.cell with
  | none => rfl
  | some existing =>
    simp only [Write.addition, conflictBetween?_draft h]
    split_ifs <;> rfl

/-! ### Entering actions and states to go to -/

/-- A table with other states to go to. -/
def withGoto (t : Table) (gotos : Cells ℤ) : Table :=
  { t with goto := gotos }

/-- Enters some states to go to. -/
def putAll (gotos : Cells ℤ) (entries : List (Cell × ℤ)) : Cells ℤ :=
  entries.foldl (fun cells e => cells.put e.1 e.2) gotos

/-- **Enters actions and states to go to**, each into its part of the table. -/
def enter (g : Augmented) (t : Table) (ws : List Write) (entries : List (Cell × ℤ)) : Table :=
  (ws.foldl (add g) t).withGoto (putAll t.goto entries)

/-- Adding an action has nothing to do with the states to go to. -/
theorem add_withGoto (g : Augmented) (t : Table) (gotos : Cells ℤ) (w : Write) :
    add g (t.withGoto gotos) w = (add g t w).withGoto gotos := by
  cases hkept : t.action.get? w.cell with
  | none => simp [add, withGoto, hkept]
  | some kept => by_cases hsame : kept = w.action <;> simp [add, withGoto, hkept, hsame]

theorem foldl_add_withGoto (g : Augmented) (ws : List Write) (t : Table) (gotos : Cells ℤ) :
    ws.foldl (add g) (t.withGoto gotos) = (ws.foldl (add g) t).withGoto gotos := by
  induction ws generalizing t with
  | nil => rfl
  | cons w ws ih => rw [List.foldl_cons, add_withGoto, ih, List.foldl_cons]

/-- To enter some and then others is to enter them all. -/
theorem enter_enter (g : Augmented) (t : Table) (ws ws' : List Write)
    (entries entries' : List (Cell × ℤ)) :
    enter g (enter g t ws entries) ws' entries' = enter g t (ws ++ ws') (entries ++ entries') := by
  rw [enter, enter, enter, foldl_add_withGoto, List.foldl_append, putAll, putAll, putAll,
    List.foldl_append]
  rfl

/-- Steps that enter something each enter all of it together, and none of them fails. -/
theorem foldlM_eq_enter {α : Type} {f : Table → α → Except Table Table} {W : α → List Write}
    {G : α → List (Cell × ℤ)} {l : List α}
    (h : ∀ a ∈ l, ∀ t, f t a = .ok (enter g t (W a) (G a))) (t : Table) :
    l.foldlM f t = .ok (enter g t (l.flatMap W) (l.flatMap G)) := by
  induction l generalizing t with
  | nil => rfl
  | cons a l ih =>
    obtain ⟨ha, hl⟩ := List.forall_mem_cons.mp h
    rw [List.foldlM_cons, ha, List.flatMap_cons, List.flatMap_cons, ← enter_enter]
    exact ih hl _

/-- Steps that only add actions enter them all. -/
theorem foldlM_eq_enter_nil {α : Type} {f : Table → α → Except Table Table} {W : α → List Write}
    {l : List α} (h : ∀ a ∈ l, ∀ t, f t a = .ok (enter g t (W a) [])) (t : Table) :
    l.foldlM f t = .ok (enter g t (l.flatMap W) []) := by
  have hnil : l.flatMap (fun _ => []) = ([] : List (Cell × ℤ)) :=
    List.flatMap_eq_nil_iff.mpr fun _ _ => rfl
  rw [foldlM_eq_enter (G := fun _ => []) h, hnil]

theorem add?_eq_enter {w : Write} (h : IsCovered g w.state) (t : Table) :
    add? g t w.addition = .ok (enter g t [w] []) := by
  rw [add?_addition h, enter, putAll, List.foldl_nil, ← goto_foldl_add [w] t]
  rfl

/-! ### Filling from an automaton -/

/-- The action that a move of a state adds: a shift, if it is over a terminal. -/
def moveWrites (m : Automaton) (s : State) (move : Transition) : List Write :=
  if move.symbol ∈ m.grammar.terminals then [⟨s, move.symbol, .shift move.target⟩] else []

/-- The state to go to that a move enters, if it shifts nothing. -/
def moveGotos (m : Automaton) (s : State) (move : Transition) : List (Cell × ℤ) :=
  if move.symbol ∉ m.grammar.terminals ∧ move.symbol ≠ m.grammar.top then
    [(⟨s.id, move.symbol⟩, move.target)]
  else []

theorem enterMove?_draft (h : IsCovered m.grammar s) (t : Table) (move : Transition) :
    enterMove? m.draft s.draft t (move.symbol, move.target) =
      .ok (enter m.grammar t (moveWrites m s move) (moveGotos m s move)) := by
  have hgrammar : m.draft.grammar = m.grammar := rfl
  simp only [enterMove?, moveWrites, moveGotos, hgrammar]
  by_cases hterminal : move.symbol ∈ m.grammar.terminals
  · rw [if_pos hterminal, if_pos hterminal, if_neg fun hn => hn.1 hterminal]
    exact add?_eq_enter (w := ⟨s, move.symbol, .shift move.target⟩) h t
  · rw [if_neg hterminal, if_neg hterminal]
    by_cases htop : move.symbol = m.grammar.top
    · rw [if_neg (not_not.mpr htop), if_neg fun hn => hn.2 htop]
      rfl
    · rw [if_pos htop, if_pos ⟨hterminal, htop⟩]
      rfl

theorem enterItem?_draft (h : IsCovered m.grammar s) {i : Item} (hi : i ∈ s.items) (t : Table) :
    enterItem? m.draft s.draft t (.ofItem i) =
      .ok (enter m.grammar t (itemWrites m s i) []) := by
  have hlt := h i hi
  have hproduction := Array.getElem?_eq_getElem hlt
  have hid : m.grammar.productions[i.production].id = (i.production : ℤ) :=
    m.grammar.id_eq _ _ hproduction
  have hreduce : m.grammar.lookaheads.foldlM
      (fun t x => add? m.grammar t ⟨s.draft, x, .reduce i.production⟩) t =
      .ok (enter m.grammar t (m.grammar.lookaheads.map fun x => ⟨s, x, .reduce i.production⟩)
        []) := by
    rw [List.map_eq_flatMap]
    exact foldlM_eq_enter_nil (fun x _ t =>
      add?_eq_enter (w := ⟨s, x, .reduce i.production⟩) h t) t
  have hgrammar : m.draft.grammar = m.grammar := rfl
  rw [enterItem?, hgrammar, Augmented.production?_ofItem hlt, itemWrites,
    Augmented.isComplete, Augmented.rhs_production hlt, Augmented.lhs_eq hproduction]
  simp only [SignedItem.ofItem, Int.ofNat_le, decide_eq_true_eq, hid, hreduce]
  split_ifs
  · exact add?_eq_enter (w := ⟨s, endMarker, .accept⟩) h t
  · rfl
  · rfl

section OfAugmented

variable {A : Augmented}

theorem enterState?_ofAugmented (hA : 0 < A.productions.size)
    (hs : s ∈ (ofAugmented A).states) (t : Table) :
    enterState? (ofAugmented A).draft t s.draft =
      .ok (enter A t (stateWrites (ofAugmented A) s) (stateGotos (ofAugmented A) s)) := by
  have hcovered := isCovered_ofAugmented hA hs
  -- move by move, a state adds its shifts and enters its states to go to
  have hwrites : ((ofAugmented A).movesFrom s.id).flatMap (moveWrites (ofAugmented A) s) =
      shiftWrites (ofAugmented A) s := by
    rw [shiftWrites, List.map_eq_flatMap, ← flatMap_ite]
    simp only [decide_eq_true_eq]
    rfl
  have hgotos : ((ofAugmented A).movesFrom s.id).flatMap (moveGotos (ofAugmented A) s) =
      stateGotos (ofAugmented A) s := by
    rw [stateGotos, List.map_eq_flatMap, ← flatMap_ite]
    simp only [decide_eq_true_eq]
    rfl
  have hmoves : ∀ t, ((ofAugmented A).draft.row s.id).foldlM
      (enterMove? (ofAugmented A).draft s.draft) t =
      .ok (enter A t (shiftWrites (ofAugmented A) s) (stateGotos (ofAugmented A) s)) := by
    intro t
    rw [Draft.row_draft_ofAugmented hA hs, List.foldlM_map, ← hwrites, ← hgotos]
    exact foldlM_eq_enter (fun move _ t => enterMove?_draft hcovered t move) t
  -- its items only add actions
  have hitems : ∀ t, s.draft.items.foldlM (enterItem? (ofAugmented A).draft s.draft) t =
      .ok (enter A t (s.items.flatMap (itemWrites (ofAugmented A) s)) []) := by
    intro t
    rw [show s.draft.items = s.items.map .ofItem from rfl, List.foldlM_map]
    exact foldlM_eq_enter_nil (fun i hi t => enterItem?_draft hcovered hi t) t
  rw [enterState?, show s.draft.id = (s.id : ℤ) from rfl, hmoves]
  refine (hitems _).trans ?_
  rw [enter_enter, List.append_nil]
  rfl

/-- **For the automaton of a grammar a generator makes its table**, whatever was there. -/
theorem generate?_ofAugmented (hA : 0 < A.productions.size) (t : Table) :
    generate? (ofAugmented A).draft t = .ok (ofAutomaton (ofAugmented A)) := by
  -- the actions and the states to go to of all states come apart
  have hfill := foldlM_eq_enter (fun s hs t => enterState?_ofAugmented hA hs t) t.clear
  rw [generate?, draft, List.foldlM_map]
  refine hfill.trans (congrArg Except.ok ?_)
  rw [enter, ← foldl_add_withGoto]
  rfl

end OfAugmented

end Table

end ShiftReduce
