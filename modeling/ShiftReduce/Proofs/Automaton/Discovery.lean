import ShiftReduce.Proofs.Automaton.Canonical
import ShiftReduce.Proofs.Order.FirstOccurrences

/-!
# States are numbered as they are discovered

Which number a state has, and in which order the moves are listed, follows from the way in which
the canonical collection is explored. A state is visited after all states of smaller numbers, and
its moves are recorded together, symbol by symbol as its items bring them up. A goto that leads to
no known state leads to the next number. So the targets of the moves, read in order, bring up the
numbers of the states one after the other, and the move that brings up a number comes from a state
that had one before (`ShiftReduce.Automaton.IsDiscovered`).

The moves grow at the end only, and the statements about them are such that one more move keeps
them: `ShiftReduce.Collection.Numbered` is the invariant, `ShiftReduce.Collection.Numbered.move`
its step, and what every move keeps holds of the canonical collection
(`ShiftReduce.Collection.canonical_induction`).
-/

namespace ShiftReduce

namespace Collection

variable {A : Augmented} {c : Collection} {s : State} {X : Symbol} {k : ℕ}

/-! ### What every move keeps -/

/-- What moves of a state keep holds after some gotos of it. -/
theorem Sound.foldl_move_induction {motive : Collection → Prop} (h : Sound A c)
    (hs : c.states[s.id]? = some s) {Xs : List Symbol}
    (hXs : ∀ X ∈ Xs, X ∈ A.symbolsAfterDot s.items)
    (hmove : ∀ (c : Collection) (X : Symbol), Sound A c → c.states[s.id]? = some s →
      X ∈ A.symbolsAfterDot s.items → motive c → motive (Collection.move A s c X))
    (hc : motive c) : motive (Xs.foldl (Collection.move A s) c) := by
  induction Xs generalizing c with
  | nil => exact hc
  | cons X Xs ih =>
    have hX := hXs X (by simp)
    obtain ⟨hsound, hext, -⟩ := h.move hs hX
    exact ih hsound (hext.getElem? hs) (fun Y hY => hXs Y (by simp [hY])) (hmove c X h hs hX hc)

/-- What every move keeps holds after an exploration. -/
theorem Sound.explore_induction {motive : Collection → Prop} (h : Sound A c)
    (hmove : ∀ (c : Collection) (s : State) (X : Symbol), Sound A c → c.states[s.id]? = some s →
      X ∈ A.symbolsAfterDot s.items → motive c → motive (Collection.move A s c X))
    (hc : motive c) (rounds k : ℕ) : motive (Collection.explore A rounds k c) := by
  induction rounds generalizing k c with
  | zero => exact hc
  | succ rounds ih =>
    cases hs : c.states[k]? with
    | none =>
      simp only [Collection.explore, hs]
      exact hc
    | some s =>
      have hs' : c.states[s.id]? = some s := by rw [h.id_eq k s hs]; exact hs
      simp only [Collection.explore, hs]
      exact ih (h.visit hs').1
        (h.foldl_move_induction hs' (fun _ hX => hX) (fun c X => hmove c s X) hc) (k + 1)

/-- **What every move keeps holds of the canonical collection**, if it holds to begin with. -/
theorem canonical_induction {motive : Collection → Prop}
    (hmove : ∀ (c : Collection) (s : State) (X : Symbol), Sound A c → c.states[s.id]? = some s →
      X ∈ A.symbolsAfterDot s.items → motive c → motive (Collection.move A s c X))
    (hinitial : motive (initial A)) : motive (canonical A) :=
  (sound_initial A).explore_induction hmove hinitial _ _

/-! ### Numbers of states -/

/-- The states that the moves lead to, in order. -/
def targets (c : Collection) : List ℕ :=
  c.transitions.toList.map (·.target)

/-- **The states are numbered in the order in which moves lead to them**, the first one aside, which
is there from the start. -/
structure Numbered (c : Collection) : Prop where
  /-- The targets bring up the numbers one after the other. -/
  targets : FirstOccurrences (0 :: c.targets) (List.range c.states.size)
  /-- A state is first entered from one with a smaller number. -/
  entered : ∀ k, 0 < k → k < c.states.size →
    ∃ t, c.transitions.toList.find? (·.target = k) = some t ∧ t.source < k

/-- A move to a known state brings up no number. -/
theorem Numbered.connect (h : Numbered c) {t : Transition} (ht : t.target < c.states.size) :
    Numbered (c.connect t) := by
  constructor
  · have hknown : t.target ∈ 0 :: c.targets :=
      (h.targets.mem_iff _).mp (List.mem_range.mpr ht)
    simpa [Collection.targets, Collection.connect] using h.targets.append_of_mem hknown
  · intro k hpos hk
    obtain ⟨t', hfind, hlt⟩ := h.entered k hpos hk
    refine ⟨t', ?_, hlt⟩
    rw [Collection.connect, Array.toList_push, List.find?_append, hfind, Option.some_or]

/-- A move to a new state brings up its number. -/
theorem Numbered.push (h : Numbered c) {items : List Item} {j : ℕ} (hj : j < c.states.size) :
    Numbered (Collection.connect { c with states := c.states.push (c.nextState items) }
      ⟨j, X, c.states.size⟩) := by
  -- no move has led to that number so far
  have hnew : c.states.size ∉ 0 :: c.targets := fun hmem =>
    absurd (List.mem_range.mp ((h.targets.mem_iff _).mpr hmem)) (Nat.lt_irrefl _)
  constructor
  · simpa [Collection.targets, Collection.connect, List.range_succ] using
      h.targets.append_of_notMem hnew
  · intro k hk hlt
    simp only [Collection.connect, Array.toList_push, List.find?_append]
    rcases Nat.lt_succ_iff_lt_or_eq.mp (by simpa [Collection.connect] using hlt) with hold | rfl
    · obtain ⟨t, hfind, hsource⟩ := h.entered k hk hold
      exact ⟨t, by rw [hfind, Option.some_or], hsource⟩
    · refine ⟨⟨j, X, c.states.size⟩, ?_, hj⟩
      have hnone : c.transitions.toList.find? (·.target = c.states.size) = none := by
        refine List.find?_eq_none.mpr fun t ht he => hnew (List.mem_cons_of_mem _ ?_)
        exact List.mem_map.mpr ⟨t, ht, by simpa using he⟩
      rw [hnone, Option.none_or]
      simp

/-- **One more move keeps the order of the numbers.** -/
theorem Numbered.move (hn : Numbered c) (h : Sound A c) (hs : c.states[s.id]? = some s) :
    Numbered (Collection.move A s c X) := by
  rcases h.move_cases s X with ⟨s', hmove, hs', -⟩ | ⟨hmove, -⟩
  · rw [hmove]
    exact hn.connect (Array.getElem?_eq_some_iff.mp hs').1
  · rw [hmove]
    exact hn.push (Array.getElem?_eq_some_iff.mp hs).1

theorem numbered_canonical (A : Augmented) : Numbered (canonical A) := by
  refine canonical_induction (fun c s X h hs _ hn => hn.move h hs) ⟨?_, fun k hpos hk => ?_⟩
  · rw [initial_eq]
    exact ⟨fun a => by simp [Collection.targets], by simp⟩
  · rw [initial_eq] at hk
    exact absurd hk (by simp; omega)

end Collection

/-! ### The automaton -/

namespace Automaton

/-- **States and moves come in the order of discovery.** -/
structure IsDiscovered (m : Automaton) : Prop where
  /-- The moves leave the states in ascending order. -/
  sources : (m.transitions.map (·.source)).Pairwise (· ≤ ·)
  /-- The moves that leave a state are over the symbols behind a dot, in the order in which the
  items, which ascend, bring them up. -/
  symbols : ∀ (k : ℕ) (s : State), m.states[k]? = some s → s.items.Pairwise (· < ·) ∧
    FirstOccurrences (s.items.filterMap m.grammar.nextSymbol) ((m.movesFrom k).map (·.symbol))
  /-- Every move leaves a state. -/
  source_lt : ∀ t ∈ m.transitions, t.source < m.states.length
  /-- The targets bring up the numbers of the states one after the other, the first one aside,
  which is there from the start. -/
  targets : FirstOccurrences (0 :: m.transitions.map (·.target)) (List.range m.states.length)
  /-- A state other than the first is first entered from one with a smaller number. -/
  entered : ∀ k, 0 < k → k < m.states.length →
    ∃ t, m.transitions.find? (·.target = k) = some t ∧ t.source < k

variable {A : Augmented} {s : State}

/-- The moves in order, by source and symbol. -/
theorem map_transitions (hA : 0 < A.productions.size) :
    (ofAugmented A).transitions.map (fun t => (t.source, t.symbol)) =
      (ofAugmented A).states.flatMap (Collection.stateKeys A) :=
  Collection.visited_canonical hA

theorem pairwise_sources (hA : 0 < A.productions.size) :
    ((ofAugmented A).transitions.map (·.source)).Pairwise (· ≤ ·) := by
  have hsources : (ofAugmented A).transitions.map (·.source) =
      ((ofAugmented A).states.flatMap (Collection.stateKeys A)).map Prod.fst := by
    rw [← map_transitions hA, List.map_map]
    rfl
  have hids : (ofAugmented A).states.Pairwise fun s s' => s.id < s'.id := by
    rw [← List.pairwise_map, (isCanonical_ofAugmented hA).ids]
    exact List.pairwise_lt_range
  have hkey : ∀ s, ∀ key ∈ Collection.stateKeys A s, key.1 = s.id := by
    intro s key hkey
    obtain ⟨X, -, rfl⟩ := List.mem_map.mp hkey
    rfl
  rw [hsources, List.pairwise_map, List.pairwise_flatMap]
  refine ⟨fun s _ => List.pairwise_of_forall_mem_list fun key h key' h' => ?_,
    hids.imp fun hlt key h key' h' => ?_⟩
  · rw [hkey s key h, hkey s key' h']
  · rw [hkey _ key h, hkey _ key' h']
    exact hlt.le

/-- **The moves that leave a state** are over the symbols behind a dot, in their order. -/
theorem map_symbol_movesFrom (hA : 0 < A.productions.size) (hs : s ∈ (ofAugmented A).states) :
    ((ofAugmented A).movesFrom s.id).map (·.symbol) = A.symbolsAfterDot s.items := by
  have hkeys : (((ofAugmented A).transitions.map fun t => (t.source, t.symbol)).filter
      fun key => decide (key.1 = s.id)) = Collection.stateKeys A s := by
    rw [map_transitions hA]
    refine filter_flatMap_of_nodup (nodup_map_id hA) (fun s' _ key hkey => ?_) hs
    obtain ⟨X, -, rfl⟩ := List.mem_map.mp hkey
    rfl
  have hsymbols := congrArg (List.map Prod.snd) hkeys
  rw [List.filter_map, List.map_map, Collection.stateKeys, List.map_map] at hsymbols
  rw [movesFrom]
  simpa [Function.comp_def] using hsymbols

/-- **States are numbered and moves listed as they are discovered**, for any grammar that can be
augmented. -/
theorem isDiscovered_ofGrammar {g : Grammar} {settings : Settings} {a : Automaton}
    (ha : ofGrammar g settings = .ok a) : a.IsDiscovered := by
  obtain ⟨A, haug, rfl⟩ := exists_ofAugmented ha
  have hA := Augmented.size_pos_of_ofGrammar haug
  have hsound := Collection.sound_canonical hA
  have hnumbered := Collection.numbered_canonical A
  refine ⟨pairwise_sources hA, fun k s hs => ?_, fun t ht => ?_, hnumbered.targets,
    hnumbered.entered⟩
  · have hmem := List.mem_of_getElem? hs
    have hid : s.id = k := hsound.id_eq k s ((getElem?_states k).symm.trans hs)
    refine ⟨(isCanonical_ofAugmented hA).ascending s hmem, ?_⟩
    rw [← hid, map_symbol_movesFrom hA hmem]
    exact firstOccurrences_eraseDups _
  · obtain ⟨s, -, hs, -⟩ := hsound.transition t (Array.mem_toList_iff.mp ht)
    exact (Array.getElem?_eq_some_iff.mp hs).1

theorem isDiscovered_ofGrammar_loose :
    ∃ a, ofGrammar looseGrammar {} = .ok a ∧ a.IsDiscovered ∧
      a.transitions.map (·.target) = [1, 2, 2, 3, 4] := by
  have ha : ∃ a, ofGrammar looseGrammar {} = .ok a ∧
      a.transitions.map (·.target) = [1, 2, 2, 3, 4] := ⟨_, rfl, by decide +kernel⟩
  obtain ⟨a, ha, htargets⟩ := ha
  exact ⟨a, ha, isDiscovered_ofGrammar ha, htargets⟩

end Automaton

end ShiftReduce
