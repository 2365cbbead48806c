import Mathlib.Data.List.Nodup
import Mathlib.Data.List.Range
import ShiftReduce.Table.Basic
import ShiftReduce.Proofs.Automaton.Canonical
import ShiftReduce.Proofs.Table.Filling

/-!
# The candidates for a cell of the table

The table of an automaton is filled state by state, and the writes to one cell are far apart. Here
the table is looked at by cells. The *candidates* for a cell
(`ShiftReduce.Table.candidates`) are the actions that want it: a shift, if the state has a move over
the terminal; then success before the end marker, if the production of the fresh start symbol is
completed; then the reductions of the other completed productions by ascending numbers.

The writes to a cell are its candidates, in this order
(`ShiftReduce.Table.writesAt_ofAugmented`). What a sequence of writes leaves in a cell and records
for it depends on the writes to that cell alone: the first one stays, and each later one that
differs from it is a conflict (`ShiftReduce.Table.conflictsAt_foldl_add`). No candidate comes twice,
so the table holds the first candidate of a cell (`ShiftReduce.Table.get?_eq_head?_candidates`), and
the conflicts of the cell are all candidates but the first
(`ShiftReduce.Table.conflictsAt_eq_candidateConflicts`).
-/

namespace ShiftReduce

namespace Table

open Automaton

/-! ### What writes record for a cell -/

/-- The conflicts that are recorded for a cell, in order. -/
def conflictsAt (t : Table) (c : Cell) : List Conflict :=
  t.conflicts.toList.filter fun k => (⟨k.state, k.symbol⟩ : Cell) = c

/-- The writes to a cell, in order. -/
def writesAt (ws : List Write) (c : Cell) : List Write :=
  ws.filter (·.cell = c)

/-- The conflicts that writes to a cell bring which holds an action. -/
def rejections (g : Augmented) (kept : Action) (ws : List Write) : List Conflict :=
  (ws.filter (·.action ≠ kept)).map fun w => conflictBetween g w.state w.symbol kept w.action

section Fold

variable {g : Augmented} {t : Table} {w : Write} {ws : List Write} {c : Cell} {kept : Action}

theorem writesAt_cons_of_eq (h : w.cell = c) : writesAt (w :: ws) c = w :: writesAt ws c := by
  simp [writesAt, h]

theorem writesAt_cons_of_ne (h : w.cell ≠ c) : writesAt (w :: ws) c = writesAt ws c := by
  simp [writesAt, h]

/-- A write brings no conflict to another cell. -/
theorem conflictsAt_add_of_ne (h : w.cell ≠ c) : (add g t w).conflictsAt c = t.conflictsAt c := by
  unfold add
  split
  · rfl
  · split
    · rfl
    · simp only [conflictsAt, Array.toList_push, List.filter_append]
      have hcell : (⟨w.state.id, w.symbol⟩ : Cell) ≠ c := h
      simp [conflictBetween, hcell]

/-- A write brings no conflict to an empty cell. -/
theorem conflictsAt_add_of_none (h : t.action.get? w.cell = none) :
    (add g t w).conflictsAt c = t.conflictsAt c := by
  simp only [add, h]
  rfl

/-- A write to a cell that holds an action is rejected if it differs. -/
theorem conflictsAt_add_of_some (h : t.action.get? w.cell = some kept) :
    (add g t w).conflictsAt w.cell = t.conflictsAt w.cell ++ rejections g kept [w] := by
  by_cases he : kept = w.action
  · simp [add, h, he, rejections]
  · have he' : ¬w.action = kept := fun heq => he heq.symm
    simp only [add, h, if_neg he, conflictsAt, Array.toList_push, List.filter_append, rejections]
    simp [conflictBetween, Write.cell, he']

theorem rejections_cons (w : Write) (ws : List Write) :
    rejections g kept (w :: ws) = rejections g kept [w] ++ rejections g kept ws := by
  rw [rejections, rejections, rejections, ← List.map_append, ← List.filter_append]
  rfl

/-- **A cell that holds an action keeps it**, and of the writes to it those that differ are
recorded. -/
theorem conflictsAt_foldl_add_of_some (h : t.action.get? c = some kept) :
    (ws.foldl (add g) t).conflictsAt c =
      t.conflictsAt c ++ rejections g kept (writesAt ws c) := by
  induction ws generalizing t with
  | nil => simp [writesAt, rejections]
  | cons w ws ih =>
    have hkept : (add g t w).action.get? c = some kept := by rw [get?_add, h, Option.some_or]
    rw [List.foldl_cons, ih hkept]
    by_cases hc : w.cell = c
    · subst hc
      rw [conflictsAt_add_of_some h, writesAt_cons_of_eq rfl,
        rejections_cons w (writesAt ws w.cell), List.append_assoc]
    · rw [conflictsAt_add_of_ne hc, writesAt_cons_of_ne hc]

/-- **What writes record for an empty cell**: the first write to it stays, and of the later ones
those that differ are recorded. -/
theorem conflictsAt_foldl_add (h : t.action.get? c = none) :
    (ws.foldl (add g) t).conflictsAt c = t.conflictsAt c ++
      match writesAt ws c with
      | [] => []
      | w :: later => rejections g w.action later := by
  induction ws generalizing t with
  | nil => simp [writesAt]
  | cons w ws ih =>
    rw [List.foldl_cons]
    by_cases hc : w.cell = c
    · subst hc
      have hkept : (add g t w).action.get? w.cell = some w.action := by
        rw [get?_add, h, if_pos rfl, Option.none_or]
      rw [conflictsAt_foldl_add_of_some hkept, conflictsAt_add_of_none h, writesAt_cons_of_eq rfl]
    · have hempty : (add g t w).action.get? c = none := by
        rw [get?_add, h, if_neg hc, Option.none_or]
      rw [ih hempty, conflictsAt_add_of_ne hc, writesAt_cons_of_ne hc]

/-- What writes leave in an empty cell: the first of them. -/
theorem get?_foldl_add_eq_head? (h : t.action.get? c = none) :
    (ws.foldl (add g) t).action.get? c = ((writesAt ws c).head?).map (·.action) := by
  rw [get?_foldl_add, h, Option.none_or, writesAt, List.head?_filter]

end Fold

/-! ### Candidates -/

/-- A state completes a production if it holds an item of it with the dot at the end. -/
def Completes (m : Automaton) (s : State) (p : ℕ) : Prop :=
  ∃ i ∈ s.items, i.production = p ∧ m.grammar.isComplete i

instance (m : Automaton) (s : State) (p : ℕ) : Decidable (Completes m s p) :=
  inferInstanceAs (Decidable (∃ i ∈ s.items, i.production = p ∧ m.grammar.isComplete i))

/-- The shifts that want a cell: those along the moves over the symbol, if it is a terminal. -/
def shiftCandidates (m : Automaton) (s : State) (x : Symbol) : List Action :=
  ((m.movesFrom s.id).filter fun t => t.symbol = x ∧ x ∈ m.grammar.terminals).map fun t =>
    .shift t.target

/-- Success, if it wants a cell: before the end marker, where the input is finished. -/
def acceptCandidates (s : State) (x : Symbol) : List Action :=
  if x = endMarker ∧ acceptItem ∈ s.items then [.accept] else []

/-- The reductions that want a cell of a state: those of the completed productions but the first,
by ascending numbers. -/
def reduceCandidates (m : Automaton) (s : State) : List Action :=
  ((List.range m.grammar.productions.size).filter fun p => 1 ≤ p ∧ Completes m s p).map
    fun p : ℕ => .reduce p

/-- **The candidates for a cell**, in order. -/
def candidates (m : Automaton) (s : State) (x : Symbol) : List Action :=
  shiftCandidates m s x ++ acceptCandidates s x ++ reduceCandidates m s

/-- The conflicts of the candidates for a cell: the first is kept and each other one rejected. -/
def candidateConflicts (m : Automaton) (s : State) (x : Symbol) : List Conflict :=
  match candidates m s x with
  | [] => []
  | first :: later => later.map fun rejected =>
    { state := s.id
      symbol := x
      existing := first
      incoming := rejected
      kind := if first.isShift then .shiftReduce else .reduceReduce
      existingItems := (justifying m.grammar s x first).map m.grammar.itemText
      incomingItems := (justifying m.grammar s x rejected).map m.grammar.itemText }

section Shape

variable {m : Automaton} {s : State} {x : Symbol} {act : Action}

theorem mem_shiftCandidates :
    act ∈ shiftCandidates m s x ↔ ∃ t ∈ m.movesFrom s.id, t.symbol = x ∧
      x ∈ m.grammar.terminals ∧ .shift t.target = act := by
  simp [shiftCandidates, and_assoc]

theorem mem_acceptCandidates :
    act ∈ acceptCandidates s x ↔ x = endMarker ∧ acceptItem ∈ s.items ∧ act = .accept := by
  unfold acceptCandidates
  split_ifs with h
  · simp [h.1, h.2]
  · simp only [List.not_mem_nil, false_iff]
    exact fun h' => h ⟨h'.1, h'.2.1⟩

theorem mem_reduceCandidates :
    act ∈ reduceCandidates m s ↔ ∃ p, p < m.grammar.productions.size ∧ 1 ≤ p ∧
      Completes m s p ∧ .reduce p = act := by
  simp [reduceCandidates, and_assoc]

theorem mem_candidates :
    act ∈ candidates m s x ↔ act ∈ shiftCandidates m s x ∨ act ∈ acceptCandidates s x ∨
      act ∈ reduceCandidates m s := by
  simp [candidates]

theorem nodup_reduceCandidates : (reduceCandidates m s).Nodup :=
  (List.nodup_range.filter _).map fun p q h => by exact_mod_cast Action.reduce.inj h

end Shape

section OfAutomaton

variable {A : Augmented} {g : Grammar} {s : State} {x : Symbol} {act : Action} {p q : ℕ}

/-- A state has one move over a symbol at most, and so one shift at most wants a cell. -/
theorem shiftCandidates_cases (hA : 0 < A.productions.size) :
    shiftCandidates (ofAugmented A) s x = [] ∨
      ∃ r : ℕ, shiftCandidates (ofAugmented A) s x = [.shift r] := by
  let moves := ((ofAugmented A).movesFrom s.id).filter fun t => t.symbol = x ∧ x ∈ A.terminals
  have hkeys : (moves.map fun t => (t.source, t.symbol)).Nodup :=
    (Collection.nodup_keys hA).sublist
      ((List.filter_sublist.trans List.filter_sublist).map _)
  -- all these moves leave the state over the symbol, so there are no two of them
  have hsame : ∀ t ∈ moves, (t.source, t.symbol) = (s.id, x) := by
    intro t ht
    obtain ⟨hmem, hx⟩ := List.mem_filter.mp ht
    have hsource := of_decide_eq_true (List.mem_filter.mp hmem).2
    have hx' := (of_decide_eq_true hx).1
    rw [hsource, hx']
  have hshift : shiftCandidates (ofAugmented A) s x = moves.map fun t => .shift t.target := rfl
  rw [hshift]
  rcases hmoves : moves with _ | ⟨t, _ | ⟨t', later⟩⟩
  · exact Or.inl rfl
  · exact Or.inr ⟨t.target, rfl⟩
  · rw [hmoves] at hkeys hsame
    have heq : (t.source, t.symbol) = (t'.source, t'.symbol) :=
      (hsame t (by simp)).trans (hsame t' (by simp)).symm
    simp [heq] at hkeys

/-- **No candidate comes twice.** -/
theorem nodup_candidates (hA : 0 < A.productions.size) :
    (candidates (ofAugmented A) s x).Nodup := by
  have haccept : (acceptCandidates s x).Nodup := by
    unfold acceptCandidates
    split_ifs
    · exact List.nodup_singleton _
    · exact List.nodup_nil
  have hshift : (shiftCandidates (ofAugmented A) s x).Nodup := by
    rcases shiftCandidates_cases (s := s) (x := x) hA with h | ⟨r, h⟩
    · rw [h]
      exact List.nodup_nil
    · rw [h]
      exact List.nodup_singleton _
  rw [candidates, List.append_assoc, List.nodup_append', List.nodup_append']
  refine ⟨hshift, ⟨haccept, nodup_reduceCandidates, fun act h h' => ?_⟩, fun act h h' => ?_⟩
  · obtain ⟨-, -, rfl⟩ := mem_acceptCandidates.mp h
    obtain ⟨p, -, -, -, hp⟩ := mem_reduceCandidates.mp h'
    exact absurd hp (by simp)
  · obtain ⟨t, -, -, -, rfl⟩ := mem_shiftCandidates.mp h
    rcases List.mem_append.mp h' with h' | h'
    · exact absurd (mem_acceptCandidates.mp h').2.2 (by simp)
    · obtain ⟨p, -, -, -, hp⟩ := mem_reduceCandidates.mp h'
      exact absurd hp (by simp)

/-- **Only the first candidate can be a shift.** -/
theorem isShift_of_mem_tail (hA : 0 < A.productions.size)
    (h : act ∈ (candidates (ofAugmented A) s x).tail) : act.isShift = false := by
  have hrest : act ∈ acceptCandidates s x ++ reduceCandidates (ofAugmented A) s := by
    rcases shiftCandidates_cases (s := s) (x := x) hA with hs | ⟨r, hs⟩
    · rw [candidates, hs, List.nil_append] at h
      exact List.mem_of_mem_tail h
    · rw [candidates, hs, List.append_assoc] at h
      exact h
  rcases List.mem_append.mp hrest with hrest | hrest
  · rw [(mem_acceptCandidates.mp hrest).2.2]
    rfl
  · obtain ⟨p, -, -, -, rfl⟩ := mem_reduceCandidates.mp hrest
    rfl

/-! ### Writes to a cell -/

/-- Every write of a state goes to a cell of that state. -/
theorem state_of_mem_stateWrites {m : Automaton} {w : Write} (h : w ∈ stateWrites m s) :
    w.state = s := by
  rcases mem_stateWrites.mp h with hshift | ⟨i, -, hitem⟩
  · obtain ⟨t, -, -, rfl⟩ := mem_shiftWrites.mp hshift
    rfl
  · rcases (mem_itemWrites.mp hitem).2 with ⟨-, rfl⟩ | ⟨-, x, -, rfl⟩
    · rfl
    · rfl

/-- **The writes to a cell of a state** are those of the state itself. -/
theorem writesAt_flatMap (hA : 0 < A.productions.size) (hs : s ∈ (ofAugmented A).states) :
    writesAt ((ofAugmented A).states.flatMap (stateWrites (ofAugmented A))) ⟨s.id, x⟩ =
      (stateWrites (ofAugmented A) s).filter (·.symbol = x) := by
  have hcell : ∀ w : Write, decide (w.cell = ⟨s.id, x⟩) =
      (decide (w.symbol = x) && decide (w.state.id = s.id)) := by
    intro w
    rw [← Bool.decide_and]
    refine decide_eq_decide.mpr ?_
    rw [Write.cell, Cell.mk.injEq, Int.natCast_inj, and_comm]
  have hself : ((ofAugmented A).states.flatMap (stateWrites (ofAugmented A))).filter
      (fun w => decide (w.state.id = s.id)) = stateWrites (ofAugmented A) s :=
    filter_flatMap_of_nodup (nodup_map_id hA)
      (fun s' _ w hw => by rw [state_of_mem_stateWrites hw]) hs
  rw [writesAt, List.filter_congr fun w _ => hcell w, ← List.filter_filter, hself]

/-- The shifts of a state that go to a cell are its candidates. -/
theorem filter_shiftWrites {m : Automaton} :
    (shiftWrites m s).filter (·.symbol = x) =
      (shiftCandidates m s x).map fun act => ⟨s, x, act⟩ := by
  have hmoves : ∀ t : Transition, (decide (t.symbol = x) && decide (t.symbol ∈ m.grammar.terminals))
      = decide (t.symbol = x ∧ x ∈ m.grammar.terminals) := by
    intro t
    by_cases ht : t.symbol = x
    · simp [ht]
    · simp [ht]
  rw [shiftWrites, shiftCandidates, List.filter_map, List.filter_filter, List.map_map]
  simp only [Function.comp_def, hmoves]
  refine List.map_congr_left fun t ht => ?_
  have ht' : t.symbol = x := (of_decide_eq_true (List.mem_filter.mp ht).2).1
  rw [ht']

/-- What a completed production writes to a cell before a terminal or the end marker. -/
def completedWrites (g : Augmented) (s : State) (x : Symbol) (p : ℕ) : List Write :=
  if g.lhs p = g.top then if x = endMarker then [⟨s, endMarker, .accept⟩] else []
  else [⟨s, x, .reduce p⟩]

theorem nodup_lookaheads (A : Augmented) : A.lookaheads.Nodup := by
  have hterminals : A.terminals.toList.Nodup :=
    A.terminals.ascending.imp fun h => String.ne_of_lt h
  rw [Augmented.lookaheads, List.nodup_append']
  exact ⟨hterminals.filter _, List.nodup_singleton _, by simp⟩

/-- An item writes to a cell what its production does, if it is completed. -/
theorem filter_itemWrites (hx : x ∈ A.lookaheads) (i : Item) :
    (itemWrites (ofAugmented A) s i).filter (·.symbol = x) =
      if A.isComplete i then completedWrites A s x i.production else [] := by
  unfold itemWrites completedWrites
  change List.filter _ (if A.isComplete i then if A.lhs i.production = A.top then _ else
    A.lookaheads.map _ else []) = _
  split_ifs with hcomplete htop hend
  · simp [hend]
  · simp [Ne.symm hend]
  · -- the production is reduced before every symbol, and so before this one once
    have hone : A.lookaheads.filter (fun y => decide (y = x)) = [x] := by
      rw [List.filter_eq, List.count_eq_one_of_mem (nodup_lookaheads A) hx]
      rfl
    rw [List.filter_map, Function.comp_def, hone]
    rfl
  · rfl

theorem flatMap_ite {α β : Type} (l : List α) (P : α → Bool) (f : α → List β) :
    l.flatMap (fun a => if P a then f a else []) = (l.filter P).flatMap f := by
  induction l with
  | nil => rfl
  | cons a l ih =>
    by_cases ha : P a = true
    · simp [ha, ih]
    · simp [ha, ih]

/-- In a state of the automaton a production is completed by one item only. -/
theorem completes_iff (hA : 0 < A.productions.size) (hs : s ∈ (ofAugmented A).states) :
    Completes (ofAugmented A) s p ↔ (⟨p, (A.rhs p).length⟩ : Item) ∈ s.items := by
  constructor
  · rintro ⟨i, hi, rfl, hcomplete⟩
    rw [← (isComplete_iff hA ⟨s, hs, rfl, hi⟩).mp hcomplete]
    exact hi
  · exact fun hi => ⟨_, hi, rfl, by simp [Augmented.isComplete, ofAugmented]⟩

/-- **The completed items of a state, in order,** are those of its completed productions by
ascending numbers. -/
theorem map_production_filter (hA : 0 < A.productions.size) (hs : s ∈ (ofAugmented A).states) :
    (s.items.filter A.isComplete).map (·.production) =
      (List.range A.productions.size).filter (Completes (ofAugmented A) s ·) := by
  have hcanonical := isCanonical_ofAugmented hA
  have hend : ∀ i ∈ s.items, A.isComplete i = true →
      i = ⟨i.production, (A.rhs i.production).length⟩ := fun i hi =>
    (isComplete_iff hA ⟨s, hs, rfl, hi⟩).mp
  have hleft : ((s.items.filter A.isComplete).map (·.production)).Pairwise (· < ·) := by
    refine List.pairwise_map.mpr (((hcanonical.ascending s hs).filter _).imp_of_mem ?_)
    intro i j hi hj hlt
    obtain ⟨hi, hi'⟩ := List.mem_filter.mp hi
    obtain ⟨hj, hj'⟩ := List.mem_filter.mp hj
    rcases Item.lt_iff.mp hlt with hproduction | ⟨hproduction, hdot⟩
    · exact hproduction
    · rw [hend i hi hi', hend j hj hj', hproduction] at hdot
      exact absurd hdot (Nat.lt_irrefl _)
  refine hleft.eq_of_mem_iff (List.pairwise_lt_range.filter _) fun p => ?_
  simp only [List.mem_map, List.mem_filter, List.mem_range, decide_eq_true_eq]
  constructor
  · rintro ⟨i, ⟨hi, hcomplete⟩, rfl⟩
    obtain ⟨q, hq, -⟩ := hcanonical.dot_le s hs i hi
    exact ⟨(Array.getElem?_eq_some_iff.mp hq).1, i, hi, rfl, hcomplete⟩
  · rintro ⟨-, i, hi, rfl, hcomplete⟩
    exact ⟨i, ⟨hi, hcomplete⟩, rfl⟩

/-- What the items of a state write to a cell is what its completed productions do. -/
theorem filter_flatMap_itemWrites (hA : 0 < A.productions.size)
    (hs : s ∈ (ofAugmented A).states) (hx : x ∈ A.lookaheads) :
    (s.items.flatMap (itemWrites (ofAugmented A) s)).filter (·.symbol = x) =
      ((List.range A.productions.size).filter (Completes (ofAugmented A) s ·)).flatMap
        (completedWrites A s x) := by
  rw [List.filter_flatMap]
  simp only [filter_itemWrites hx]
  rw [flatMap_ite, ← map_production_filter hA hs, List.flatMap_map]

/-- The numbers with a property, zero apart. -/
theorem filter_range_eq_append {n : ℕ} (hn : 0 < n) (P : ℕ → Prop) [DecidablePred P] :
    (List.range n).filter (P ·) =
      (if P 0 then [0] else []) ++ (List.range n).filter fun p => 1 ≤ p ∧ P p := by
  obtain ⟨n, rfl⟩ : ∃ k, n = k + 1 := ⟨_, (Nat.succ_pred hn.ne').symm⟩
  have hlater : ((List.range n).map Nat.succ).filter (P ·) =
      ((List.range n).map Nat.succ).filter fun p => 1 ≤ p ∧ P p := by
    refine List.filter_congr fun p hp => ?_
    obtain ⟨k, -, rfl⟩ := List.mem_map.mp hp
    simp
  rw [List.range_succ_eq_map, List.filter_cons, List.filter_cons_of_neg (by simp), hlater]
  by_cases h0 : P 0
  · simp [h0]
  · simp [h0]

/-- What the first production writes, if it is completed, is success. -/
theorem completedWrites_zero (hg : A.Augments g) :
    completedWrites A s x 0 = if x = endMarker then [⟨s, endMarker, .accept⟩] else [] := by
  obtain ⟨authored, hfirst⟩ := hg.first
  exact if_pos (Augmented.lhs_eq hfirst)

/-- What any other production writes, if it is completed, is its reduction. -/
theorem completedWrites_of_pos (hg : A.Augments g) (hf : A.IsFresh g) (hp : 1 ≤ p)
    (hlt : p < A.productions.size) : completedWrites A s x p = [⟨s, x, .reduce p⟩] := by
  have hget := Array.getElem?_eq_getElem hlt
  refine if_neg fun htop => ?_
  rw [Augmented.lhs_eq hget, hf.lhs_eq_top_iff hg hget] at htop
  omega

/-- What the completed productions write to a cell are its candidates other than a shift. -/
theorem flatMap_completedWrites (hg : A.Augments g) (hf : A.IsFresh g)
    (hs : s ∈ (ofAugmented A).states) :
    ((List.range A.productions.size).filter (Completes (ofAugmented A) s ·)).flatMap
        (completedWrites A s x) =
      (acceptCandidates s x ++ reduceCandidates (ofAugmented A) s).map fun act => ⟨s, x, act⟩ := by
  obtain ⟨authored, hfirst⟩ := hg.first
  have hdone : Completes (ofAugmented A) s 0 ↔ acceptItem ∈ s.items := by
    rw [completes_iff hg.size_pos hs, Augmented.rhs_eq hfirst]
    rfl
  have haccept : (if Completes (ofAugmented A) s 0 then [0] else []).flatMap
      (completedWrites A s x) = (acceptCandidates s x).map fun act => ⟨s, x, act⟩ := by
    unfold acceptCandidates
    simp only [hdone]
    by_cases hitem : acceptItem ∈ s.items
    · by_cases hx : x = endMarker
      · simp [hitem, hx, completedWrites_zero hg]
      · simp [hitem, hx, completedWrites_zero hg]
    · simp [hitem]
  have hreduce : ((List.range A.productions.size).filter
      fun p => 1 ≤ p ∧ Completes (ofAugmented A) s p).flatMap (completedWrites A s x) =
        (reduceCandidates (ofAugmented A) s).map fun act => ⟨s, x, act⟩ := by
    rw [reduceCandidates, List.map_map, List.map_eq_flatMap]
    refine List.flatMap_congr fun p hp => ?_
    obtain ⟨hlt, hpos⟩ := List.mem_filter.mp hp
    exact completedWrites_of_pos hg hf (of_decide_eq_true hpos).1 (List.mem_range.mp hlt)
  rw [filter_range_eq_append hg.size_pos, List.flatMap_append, List.map_append, haccept, hreduce]

/-- **The writes to a cell are its candidates**, in order. -/
theorem writesAt_ofAugmented (hg : A.Augments g) (hf : A.IsFresh g)
    (hs : s ∈ (ofAugmented A).states) (hx : x ∈ A.lookaheads) :
    writesAt ((ofAugmented A).states.flatMap (stateWrites (ofAugmented A))) ⟨s.id, x⟩ =
      (candidates (ofAugmented A) s x).map fun act => ⟨s, x, act⟩ := by
  rw [writesAt_flatMap hg.size_pos hs, stateWrites, List.filter_append, filter_shiftWrites,
    filter_flatMap_itemWrites hg.size_pos hs hx, flatMap_completedWrites hg hf hs,
    ← List.map_append, candidates, List.append_assoc]

/-! ### What the table holds and records -/

/-- A cell of the action part: a state before a terminal or the end marker. -/
def IsActionCell (m : Automaton) (c : Cell) : Prop :=
  (∃ s ∈ m.states, (s.id : ℤ) = c.state) ∧ (c.symbol ∈ m.grammar.terminals ∨ c.symbol = endMarker)

/-- **A cell holds the first of its candidates.** -/
theorem get?_eq_head?_candidates (hg : A.Augments g) (hf : A.IsFresh g)
    (hs : s ∈ (ofAugmented A).states) (hx : x ∈ A.lookaheads) :
    (ofAutomaton (ofAugmented A)).action.get? ⟨s.id, x⟩ =
      (candidates (ofAugmented A) s x).head? := by
  rw [ofAutomaton, get?_foldl_add_eq_head? (Cells.get?_empty _), writesAt_ofAugmented hg hf hs hx,
    List.head?_map, Option.map_map]
  simp [Function.comp_def]

/-- **The conflicts of a cell are those of its candidates.** -/
theorem conflictsAt_eq_candidateConflicts (hg : A.Augments g) (hf : A.IsFresh g)
    (hs : s ∈ (ofAugmented A).states) (hx : x ∈ A.lookaheads) :
    (ofAutomaton (ofAugmented A)).conflictsAt ⟨s.id, x⟩ =
      candidateConflicts (ofAugmented A) s x := by
  have hnodup := nodup_candidates (s := s) (x := x) hg.size_pos
  have htail : ∀ act ∈ (candidates (ofAugmented A) s x).tail, act.isShift = false := fun _ =>
    isShift_of_mem_tail hg.size_pos
  rw [ofAutomaton, conflictsAt_foldl_add (Cells.get?_empty _), writesAt_ofAugmented hg hf hs hx,
    candidateConflicts]
  generalize candidates (ofAugmented A) s x = acts at hnodup htail ⊢
  rcases acts with _ | ⟨first, later⟩
  · rfl
  · -- every later candidate differs from the first one, and it is no shift
    have hdiffer : (later.map fun act => (⟨s, x, act⟩ : Write)).filter (·.action ≠ first) =
        later.map fun act => ⟨s, x, act⟩ := by
      refine List.filter_eq_self.mpr fun w hw => ?_
      obtain ⟨act, hact, rfl⟩ := List.mem_map.mp hw
      exact decide_eq_true fun heq : act = first => (List.nodup_cons.mp hnodup).1 (heq ▸ hact)
    change [] ++ List.map _ (List.filter _ _) = _
    rw [hdiffer, List.nil_append, List.map_map]
    refine List.map_congr_left fun act hact => ?_
    simp [conflictBetween, ConflictKind.of, htail act hact, ofAugmented]

/-- A reason for an action is one in a cell of the action part. -/
theorem Justified.isActionCell (hA : 0 < A.productions.size) {q : ℤ}
    (h : Justified (ofAugmented A) q x act) : IsActionCell (ofAugmented A) ⟨q, x⟩ := by
  cases h with
  | shift hedge hterm =>
    obtain ⟨i, ⟨s, hs, hid, -⟩, -⟩ := hedge.exists_holds hA
    exact ⟨⟨s, hs, hid⟩, Or.inl hterm⟩
  | reduce hheld _ hx =>
    obtain ⟨s, hs, hid, -⟩ := hheld
    exact ⟨⟨s, hs, hid⟩, Augmented.mem_lookaheads.mp hx⟩
  | accept hheld _ hx =>
    obtain ⟨s, hs, hid, -⟩ := hheld
    exact ⟨⟨s, hs, hid⟩, Or.inr hx⟩

/-- **A conflict is one of its cell**, and that is a cell of the action part. -/
theorem isActionCell_of_mem_conflicts (hA : 0 < A.productions.size) {k : Conflict}
    (hk : k ∈ (ofAutomaton (ofAugmented A)).conflicts) :
    k ∈ (ofAutomaton (ofAugmented A)).conflictsAt ⟨k.state, k.symbol⟩ ∧
      IsActionCell (ofAugmented A) ⟨k.state, k.symbol⟩ := by
  have hmem : k ∈ (ofAutomaton (ofAugmented A)).conflictsAt ⟨k.state, k.symbol⟩ :=
    List.mem_filter.mpr ⟨Array.mem_toList_iff.mpr hk, decide_eq_true rfl⟩
  refine ⟨hmem, ?_⟩
  rw [ofAutomaton, conflictsAt_foldl_add (Cells.get?_empty _)] at hmem
  split at hmem
  · exact absurd hmem (by simp [conflictsAt])
  next w later hwrites =>
    have hw : w ∈ writesAt _ _ := hwrites ▸ List.mem_cons_self
    obtain ⟨hw, hcell⟩ := List.mem_filter.mp hw
    exact ((exists_write_iff hA).mp ⟨w, hw, of_decide_eq_true hcell, rfl⟩).isActionCell hA

end OfAutomaton

end Table

end ShiftReduce
