import Mathlib.Data.List.Basic
import ShiftReduce.Table.Basic
import ShiftReduce.Proofs.Automaton.Edge
import ShiftReduce.Proofs.Grammar.Augmented

/-!
# What stands in the table of an automaton

The table of an automaton is filled by two folds, and this file says what the result holds without
mentioning the folds any more. In the action part the first write to a cell stays
(`ShiftReduce.Table.get?_foldl_add`); in the goto part the last one does
(`ShiftReduce.Cells.get?_foldl_put`), but since the edges of the automaton over one symbol lead to
one number, all writes to one cell agree.

So every action has its reason in the automaton (`ShiftReduce.Table.justified_of_get?`), whether
there are conflicts or not. Conversely, where there are no conflicts, every reason finds its action
(`ShiftReduce.Table.get?_of_justified`): then the table and the automaton say the same. The goto
part says the same as the edges over non-terminals in any case
(`ShiftReduce.Table.get?_goto_iff`).
-/

namespace ShiftReduce

/-! ### Two ways of filling a sheet -/

/-- **The last write to a cell stays**, if every write replaces what was there. -/
theorem Cells.get?_foldl_put {α : Type} (es : List (Cell × α)) (s : Cells α) (c : Cell) :
    (es.foldl (fun s e => s.put e.1 e.2) s).get? c =
      ((es.reverse.find? (·.1 = c)).map (·.2)).or (s.get? c) := by
  induction es generalizing s with
  | nil => simp
  | cons e es ih =>
    rw [List.foldl_cons, ih, Cells.get?_put, List.reverse_cons, List.find?_append]
    cases hlater : es.reverse.find? (·.1 = c) with
    | none =>
      by_cases hc : e.1 = c
      · simp [hc]
      · simp [hc, Ne.symm hc]
    | some later => simp

namespace Table

variable {g : Augmented}

/-- What a write leaves in a cell. -/
theorem get?_add (t : Table) (w : Write) (c : Cell) :
    (add g t w).action.get? c =
      (t.action.get? c).or (if w.cell = c then some w.action else none) := by
  by_cases hc : w.cell = c
  · subst hc
    cases hw : t.action.get? w.cell with
    | none => simp [add, hw, Cells.get?_put]
    | some existing => by_cases he : existing = w.action <;> simp [add, hw, he]
  · cases hw : t.action.get? w.cell with
    | none => simp [add, hw, Cells.get?_put, hc, Ne.symm hc]
    | some existing => by_cases he : existing = w.action <;> simp [add, hw, he, hc]

/-- **The first write to a cell stays**, whatever is recorded of the others. -/
theorem get?_foldl_add (ws : List Write) (t : Table) (c : Cell) :
    (ws.foldl (add g) t).action.get? c =
      (t.action.get? c).or ((ws.find? (·.cell = c)).map (·.action)) := by
  induction ws generalizing t with
  | nil => simp
  | cons w ws ih =>
    rw [List.foldl_cons, ih, get?_add, List.find?_cons, Option.or_assoc]
    by_cases hc : w.cell = c
    · simp [hc]
    · simp [hc]

@[simp] theorem goto_foldl_add (ws : List Write) (t : Table) :
    (ws.foldl (add g) t).goto = t.goto := by
  induction ws generalizing t with
  | nil => rfl
  | cons w ws ih =>
    rw [List.foldl_cons, ih]
    unfold add
    split
    · rfl
    · split <;> rfl

/-- A conflict is never forgotten. -/
theorem conflicts_of_foldl_add {ws : List Write} {t : Table}
    (h : (ws.foldl (add g) t).conflicts = #[]) : t.conflicts = #[] := by
  induction ws generalizing t with
  | nil => exact h
  | cons w ws ih =>
    have hadd := ih h
    unfold add at hadd
    split at hadd
    · exact hadd
    · split at hadd
      · exact hadd
      · exact absurd hadd (by simp)

/-- A write that brings no conflict finds its action in its cell afterwards. -/
theorem get?_add_cell {t : Table} {w : Write} (h : (add g t w).conflicts = #[]) :
    (add g t w).action.get? w.cell = some w.action := by
  rw [get?_add, if_pos rfl]
  rcases hw : t.action.get? w.cell with _ | existing
  · rfl
  · unfold add at h
    rw [hw] at h
    by_cases he : existing = w.action
    · rw [he, Option.some_or]
    · exact absurd h (by simp [he])

/-- **Without conflicts every write finds its action in its cell.** -/
theorem get?_foldl_add_of_mem {ws : List Write} {t : Table} {w : Write}
    (h : (ws.foldl (add g) t).conflicts = #[]) (hw : w ∈ ws) :
    (ws.foldl (add g) t).action.get? w.cell = some w.action := by
  induction ws generalizing t with
  | nil => exact absurd hw List.not_mem_nil
  | cons v ws ih =>
    rcases List.mem_cons.mp hw with rfl | hw
    · rw [List.foldl_cons, get?_foldl_add, get?_add_cell (conflicts_of_foldl_add h),
        Option.some_or]
    · exact ih h hw

/-! ### Reasons for an action -/

/-- **The reason for an action** in a state before a symbol: an edge over a terminal for a shift, a
completed item for anything else. -/
inductive Justified (m : Automaton) (q : ℤ) (x : Symbol) : Action → Prop
  /-- A terminal that an edge leads over is shifted. -/
  | shift {r : ℤ} : m.Edge q x r → x ∈ m.grammar.terminals → Justified m q x (.shift r)
  /-- A completed production is reduced. -/
  | reduce {p : ℕ} : m.Holds q ⟨p, (m.grammar.rhs p).length⟩ → m.grammar.lhs p ≠ m.grammar.top →
      x ∈ m.grammar.lookaheads → Justified m q x (.reduce p)
  /-- A completed production of the fresh start symbol accepts. -/
  | accept {p : ℕ} : m.Holds q ⟨p, (m.grammar.rhs p).length⟩ → m.grammar.lhs p = m.grammar.top →
      x = endMarker → Justified m q x .accept

section OfAutomaton

variable {A : Augmented} {q r : ℤ} {X : Symbol} {act : Action}

open Automaton

/-- Every edge leaves the number of a state. -/
theorem exists_movesFrom_iff (hA : 0 < A.productions.size) :
    (∃ s ∈ (ofAugmented A).states, (s.id : ℤ) = q ∧
      ∃ t ∈ (ofAugmented A).movesFrom s.id, t.symbol = X ∧ (t.target : ℤ) = r) ↔
      (ofAugmented A).Edge q X r := by
  constructor
  · rintro ⟨s, -, rfl, t, ht, hX, hr⟩
    obtain ⟨ht, hsource⟩ := List.mem_filter.mp ht
    exact ⟨t, ht, by exact_mod_cast of_decide_eq_true hsource, hX, hr⟩
  · rintro ⟨t, ht, rfl, hX, hr⟩
    obtain ⟨s, -, hs, -⟩ :=
      (Collection.sound_canonical hA).transition t (Array.mem_toList_iff.mp ht)
    have hid := (Collection.sound_canonical hA).id_eq _ s hs
    refine ⟨s, (mem_states_iff hA).mpr (by rw [hid]; exact hs), by rw [hid], t, ?_, hX, hr⟩
    exact List.mem_filter.mpr ⟨ht, by simpa using hid.symm⟩

/-- In a state an item is completed if the dot stands right behind its right-hand side. -/
theorem isComplete_iff (hA : 0 < A.productions.size) {i : Item}
    (hi : (ofAugmented A).Holds q i) :
    A.isComplete i = true ↔ i = ⟨i.production, (A.rhs i.production).length⟩ := by
  have hdot := (Augmented.mem_items.mp (hi.mem_items hA)).2
  obtain ⟨p, d⟩ := i
  simp only [Augmented.isComplete, decide_eq_true_eq, Item.mk.injEq, true_and] at hdot ⊢
  omega

theorem mem_shiftWrites {m : Automaton} {s : State} {w : Write} :
    w ∈ shiftWrites m s ↔
      ∃ t ∈ m.movesFrom s.id, t.symbol ∈ m.grammar.terminals ∧
        ⟨s, t.symbol, .shift t.target⟩ = w := by
  simp [shiftWrites, and_assoc]

theorem mem_itemWrites {m : Automaton} {s : State} {i : Item} {w : Write} :
    w ∈ itemWrites m s i ↔ m.grammar.isComplete i ∧
      ((m.grammar.lhs i.production = m.grammar.top ∧ w = ⟨s, endMarker, .accept⟩) ∨
        (m.grammar.lhs i.production ≠ m.grammar.top ∧
          ∃ x ∈ m.grammar.lookaheads, w = ⟨s, x, .reduce i.production⟩)) := by
  unfold itemWrites
  split_ifs with hcomplete htop
  · simp [hcomplete, htop]
  · simp [hcomplete, htop, eq_comm]
  · simp [hcomplete]

theorem mem_stateWrites {m : Automaton} {s : State} {w : Write} :
    w ∈ stateWrites m s ↔ w ∈ shiftWrites m s ∨ ∃ i ∈ s.items, w ∈ itemWrites m s i := by
  simp [stateWrites]

/-- **The writes of an automaton are the reasons for its actions.** -/
theorem exists_write_iff (hA : 0 < A.productions.size) :
    (∃ w ∈ (ofAugmented A).states.flatMap (stateWrites (ofAugmented A)),
      w.cell = ⟨q, X⟩ ∧ w.action = act) ↔ Justified (ofAugmented A) q X act := by
  constructor
  · rintro ⟨w, hw, hcell, rfl⟩
    -- a write is a shift of some state or comes from one of its completed items
    obtain ⟨s, hs, hw⟩ := List.mem_flatMap.mp hw
    rcases mem_stateWrites.mp hw with hshift | ⟨i, hi, hitem⟩
    · obtain ⟨t, ht, hterm, rfl⟩ := mem_shiftWrites.mp hshift
      obtain ⟨hq, hX⟩ := Cell.mk.inj hcell
      exact .shift ((exists_movesFrom_iff hA).mp ⟨s, hs, hq, t, ht, hX, rfl⟩) (hX ▸ hterm)
    · obtain ⟨hcomplete, hcase⟩ := mem_itemWrites.mp hitem
      have hholds : (ofAugmented A).Holds s.id i := ⟨s, hs, rfl, hi⟩
      rw [(isComplete_iff hA hholds).mp hcomplete] at hholds
      rcases hcase with ⟨htop, rfl⟩ | ⟨htop, x, hx, rfl⟩
      · obtain ⟨rfl, rfl⟩ := Cell.mk.inj hcell
        exact .accept hholds htop rfl
      · obtain ⟨rfl, rfl⟩ := Cell.mk.inj hcell
        exact .reduce hholds htop hx
  · rintro (⟨hedge, hterm⟩ | ⟨⟨s, hs, rfl, hi⟩, htop, hx⟩ | ⟨⟨s, hs, rfl, hi⟩, htop, rfl⟩)
    · obtain ⟨s, hs, rfl, t, ht, rfl, rfl⟩ := (exists_movesFrom_iff hA).mpr hedge
      refine ⟨⟨s, t.symbol, .shift t.target⟩, List.mem_flatMap.mpr ⟨s, hs, ?_⟩, rfl, rfl⟩
      exact mem_stateWrites.mpr (Or.inl (mem_shiftWrites.mpr ⟨t, ht, hterm, rfl⟩))
    · refine ⟨⟨s, X, .reduce _⟩, List.mem_flatMap.mpr ⟨s, hs, ?_⟩, rfl, rfl⟩
      refine mem_stateWrites.mpr (Or.inr ⟨_, hi, mem_itemWrites.mpr ⟨?_, Or.inr ⟨htop, ?_⟩⟩⟩)
      · simp [Augmented.isComplete, ofAugmented]
      · exact ⟨X, hx, rfl⟩
    · refine ⟨⟨s, endMarker, .accept⟩, List.mem_flatMap.mpr ⟨s, hs, ?_⟩, rfl, rfl⟩
      refine mem_stateWrites.mpr (Or.inr ⟨_, hi, mem_itemWrites.mpr ⟨?_, Or.inl ⟨htop, rfl⟩⟩⟩)
      simp [Augmented.isComplete, ofAugmented]

/-! ### The action part -/

/-- **Every action has a reason**, whether the table has conflicts or not. -/
theorem justified_of_get? (hA : 0 < A.productions.size)
    (h : (ofAutomaton (ofAugmented A)).action.get? ⟨q, X⟩ = some act) :
    Justified (ofAugmented A) q X act := by
  simp only [ofAutomaton, get?_foldl_add, Cells.get?_empty, Option.none_or] at h
  obtain ⟨w, hw, rfl⟩ := Option.map_eq_some_iff.mp h
  exact (exists_write_iff hA).mp
    ⟨w, List.mem_of_find?_eq_some hw, by simpa using List.find?_some hw, rfl⟩

/-- **Without conflicts every reason finds its action.** -/
theorem get?_of_justified (hA : 0 < A.productions.size)
    (hlr0 : (ofAutomaton (ofAugmented A)).isLR0) (h : Justified (ofAugmented A) q X act) :
    (ofAutomaton (ofAugmented A)).action.get? ⟨q, X⟩ = some act := by
  obtain ⟨w, hw, hcell, rfl⟩ := (exists_write_iff hA).mpr h
  rw [← hcell]
  exact get?_foldl_add_of_mem (Array.isEmpty_iff.mp hlr0) hw

/-! ### The goto part -/

theorem mem_stateGotos {m : Automaton} {s : State} {e : Cell × ℤ} :
    e ∈ stateGotos m s ↔ ∃ t ∈ m.movesFrom s.id, t.symbol ∉ m.grammar.terminals ∧
      t.symbol ≠ m.grammar.top ∧ (⟨s.id, t.symbol⟩, (t.target : ℤ)) = e := by
  simp [stateGotos, and_assoc]

theorem mem_gotos_iff (hA : 0 < A.productions.size) :
    ((⟨q, X⟩, r) : Cell × ℤ) ∈ (ofAugmented A).states.flatMap (stateGotos (ofAugmented A)) ↔
      (ofAugmented A).Edge q X r ∧ X ∉ A.terminals ∧ X ≠ A.top := by
  rw [← exists_movesFrom_iff hA, List.mem_flatMap]
  constructor
  · rintro ⟨s, hs, he⟩
    obtain ⟨t, ht, hterm, htop, he⟩ := mem_stateGotos.mp he
    obtain ⟨⟨rfl, rfl⟩, rfl⟩ : ((s.id : ℤ) = q ∧ t.symbol = X) ∧ (t.target : ℤ) = r := by
      simpa using he
    exact ⟨⟨s, hs, rfl, t, ht, rfl, rfl⟩, hterm, htop⟩
  · rintro ⟨⟨s, hs, rfl, t, ht, rfl, rfl⟩, hterm, htop⟩
    exact ⟨s, hs, mem_stateGotos.mpr ⟨t, ht, hterm, htop, rfl⟩⟩

/-- **The goto part says the same as the edges** over symbols that are neither terminals nor the
fresh start symbol. -/
theorem get?_goto_iff (hA : 0 < A.productions.size) :
    (ofAutomaton (ofAugmented A)).goto.get? ⟨q, X⟩ = some r ↔
      (ofAugmented A).Edge q X r ∧ X ∉ A.terminals ∧ X ≠ A.top := by
  rw [← mem_gotos_iff hA]
  simp only [ofAutomaton, goto_foldl_add, Cells.get?_foldl_put, Cells.get?_empty, Option.or_none]
  constructor
  · intro h
    obtain ⟨⟨c, r'⟩, hfind, rfl⟩ := Option.map_eq_some_iff.mp h
    obtain rfl : c = ⟨q, X⟩ := by simpa using List.find?_some hfind
    exact List.mem_reverse.mp (List.mem_of_find?_eq_some hfind)
  · intro hmem
    -- some write goes to the cell, and the last of them leads where this one does
    obtain ⟨⟨c, r'⟩, hfind⟩ := Option.isSome_iff_exists.mp
      (List.find?_isSome.mpr ⟨_, List.mem_reverse.mpr hmem, by simp⟩ :
        (((ofAugmented A).states.flatMap (stateGotos (ofAugmented A))).reverse.find?
          (·.1 = ⟨q, X⟩)).isSome)
    obtain rfl : c = ⟨q, X⟩ := by simpa using List.find?_some hfind
    have hmem' := List.mem_reverse.mp (List.mem_of_find?_eq_some hfind)
    rw [hfind, Option.map_some,
      ((mem_gotos_iff hA).mp hmem').1.eq hA ((mem_gotos_iff hA).mp hmem).1]

theorem isLR0_brackets : (ofAutomaton (ofAugmented .brackets)).isLR0 := by decide +kernel

end OfAutomaton

end Table

end ShiftReduce
