import Mathlib.Data.List.Basic
import ShiftReduce.Proofs.Table.Candidates

/-!
# Adequate automata

An automaton is *adequate* if no state has two completed items, nor a completed item of a
production of the grammar beside a move over a terminal (`ShiftReduce.Automaton.IsAdequate`). This
is said of the states alone. Since the table records every candidate for a cell but the first, it
has no conflicts exactly if no cell has two candidates
(`ShiftReduce.Table.isLR0_iff_candidates`), and a state has two candidates for a cell exactly if it
breaks one of the two conditions: a completed item wants the cells before all terminals and the end
marker, or, if it is that of the fresh start symbol, the one before the end marker
(`ShiftReduce.Table.isLR0_iff_isAdequate`).

With the candidates for every cell this is all there is to be said of a generated table
(`ShiftReduce.Table.ofAutomaton_candidates`).
-/

namespace ShiftReduce

/-- **An adequate automaton**: no state has two completed items, and no state has a completed item
of a production other than the first beside a move over a terminal. -/
def Automaton.IsAdequate (m : Automaton) : Prop :=
  ∀ s ∈ m.states,
    (∀ i ∈ s.items, ∀ j ∈ s.items, m.grammar.isComplete i → m.grammar.isComplete j → i = j) ∧
    ∀ i ∈ s.items, m.grammar.isComplete i → i.production ≠ 0 →
      ∀ t ∈ m.movesFrom s.id, t.symbol ∉ m.grammar.terminals

namespace Table

open Automaton

section OfAutomaton

variable {A : Augmented} {g : Grammar} {s : State} {x : Symbol} {act : Action}

/-- Candidates have no conflicts exactly if there are no two of them. -/
theorem candidateConflicts_eq_nil_iff (hA : 0 < A.productions.size) :
    candidateConflicts (ofAugmented A) s x = [] ↔
      ∀ act ∈ candidates (ofAugmented A) s x, ∀ act' ∈ candidates (ofAugmented A) s x,
        act = act' := by
  have hnodup := nodup_candidates (s := s) (x := x) hA
  rw [candidateConflicts]
  generalize candidates (ofAugmented A) s x = acts at hnodup ⊢
  rcases acts with _ | ⟨first, _ | ⟨second, later⟩⟩
  · simp
  · simp
  · refine ⟨fun h => absurd h (by simp), fun h => ?_⟩
    have heq := h first (by simp) second (by simp)
    exact absurd hnodup (by simp [heq])

/-- **A table has no conflicts exactly if no cell has two candidates.** -/
theorem isLR0_iff_candidates (hg : A.Augments g) (hf : A.IsFresh g) :
    (ofAutomaton (ofAugmented A)).isLR0 ↔
      ∀ s ∈ (ofAugmented A).states, ∀ x ∈ A.lookaheads,
        ∀ act ∈ candidates (ofAugmented A) s x, ∀ act' ∈ candidates (ofAugmented A) s x,
          act = act' := by
  constructor
  · intro h s hs x hx
    rw [← candidateConflicts_eq_nil_iff hg.size_pos,
      ← conflictsAt_eq_candidateConflicts hg hf hs hx, conflictsAt, Array.isEmpty_iff.mp h]
    rfl
  · intro h
    refine Array.isEmpty_iff.mpr (Array.eq_empty_iff_forall_not_mem.mpr fun k hk => ?_)
    obtain ⟨hmem, ⟨s, hs, hid⟩, hx⟩ := isActionCell_of_mem_conflicts hg.size_pos hk
    have hx' : k.symbol ∈ A.lookaheads := Augmented.mem_lookaheads.mpr hx
    change (s.id : ℤ) = k.state at hid
    rw [← hid, conflictsAt_eq_candidateConflicts hg hf hs hx',
      (candidateConflicts_eq_nil_iff hg.size_pos).mpr (h s hs _ hx')] at hmem
    exact absurd hmem List.not_mem_nil

/-- What a completed item wants: success or a reduction, and the latter before any symbol. -/
theorem mem_candidates_of_isComplete (hg : A.Augments g) (hs : s ∈ (ofAugmented A).states)
    {i : Item} (hi : i ∈ s.items) (hcomplete : A.isComplete i) :
    if i.production = 0 then .accept ∈ candidates (ofAugmented A) s endMarker
    else .reduce i.production ∈ candidates (ofAugmented A) s x := by
  have hend := (isComplete_iff hg.size_pos ⟨s, hs, rfl, hi⟩).mp hcomplete
  split_ifs with hzero
  · obtain ⟨authored, hfirst⟩ := hg.first
    have haccept : i = acceptItem := by
      rw [hend, hzero, Augmented.rhs_eq hfirst]
      rfl
    exact mem_candidates.mpr (Or.inr (Or.inl (mem_acceptCandidates.mpr
      ⟨rfl, haccept ▸ hi, rfl⟩)))
  · obtain ⟨p, hp, -⟩ := (isCanonical_ofAugmented hg.size_pos).dot_le s hs i hi
    exact mem_candidates.mpr (Or.inr (Or.inr (mem_reduceCandidates.mpr
      ⟨i.production, (Array.getElem?_eq_some_iff.mp hp).1, Nat.pos_of_ne_zero hzero,
        ⟨i, hi, rfl, hcomplete⟩, rfl⟩)))

/-- In an adequate automaton a reduction is the only candidate for a cell. -/
theorem eq_of_mem_reduceCandidates (hg : A.Augments g) (h : (ofAugmented A).IsAdequate)
    (hs : s ∈ (ofAugmented A).states) {act' : Action}
    (hact : act ∈ reduceCandidates (ofAugmented A) s)
    (hact' : act' ∈ candidates (ofAugmented A) s x) : act' = act := by
  obtain ⟨hone, halone⟩ := h s hs
  obtain ⟨_, -, hp, ⟨i, hi, rfl, hcomplete⟩, rfl⟩ := mem_reduceCandidates.mp hact
  rcases mem_candidates.mp hact' with hshift | haccept | hreduce
  · obtain ⟨t, ht, rfl, hx, -⟩ := mem_shiftCandidates.mp hshift
    exact absurd hx (halone i hi hcomplete (Nat.pos_iff_ne_zero.mp hp) t ht)
  · obtain ⟨-, hdone, -⟩ := mem_acceptCandidates.mp haccept
    obtain ⟨authored, hfirst⟩ := hg.first
    have hcomplete' : A.isComplete acceptItem := by
      simp [Augmented.isComplete, acceptItem, Augmented.rhs_eq hfirst]
    rw [hone i hi acceptItem hdone hcomplete hcomplete'] at hp
    exact absurd hp (Nat.not_succ_le_zero 0)
  · obtain ⟨_, -, -, ⟨j, hj, rfl, hcomplete'⟩, rfl⟩ := mem_reduceCandidates.mp hreduce
    rw [hone i hi j hj hcomplete hcomplete']

/-- In an adequate automaton no cell has two candidates. -/
theorem candidates_eq_of_isAdequate (hg : A.Augments g) (h : (ofAugmented A).IsAdequate)
    (hs : s ∈ (ofAugmented A).states) {act' : Action}
    (hact : act ∈ candidates (ofAugmented A) s x)
    (hact' : act' ∈ candidates (ofAugmented A) s x) : act = act' := by
  have hterminal : ∀ {b c}, b ∈ shiftCandidates (ofAugmented A) s x →
      c ∉ acceptCandidates s x := by
    intro b c hb hc
    obtain ⟨t, -, -, hx, -⟩ := mem_shiftCandidates.mp hb
    exact hg.wellFormed.ne_endMarker (hg.terminals ▸ hx) (mem_acceptCandidates.mp hc).1
  rcases mem_candidates.mp hact with hshift | haccept | hreduce
  · rcases mem_candidates.mp hact' with hshift' | haccept' | hreduce'
    · rcases shiftCandidates_cases (s := s) (x := x) hg.size_pos with hnone | ⟨r, hr⟩
      · rw [hnone] at hshift
        exact absurd hshift List.not_mem_nil
      · rw [hr] at hshift hshift'
        rw [List.mem_singleton.mp hshift, List.mem_singleton.mp hshift']
    · exact absurd haccept' (hterminal hshift)
    · exact eq_of_mem_reduceCandidates hg h hs hreduce' hact
  · rcases mem_candidates.mp hact' with hshift' | haccept' | hreduce'
    · exact absurd haccept (hterminal hshift')
    · rw [(mem_acceptCandidates.mp haccept).2.2, (mem_acceptCandidates.mp haccept').2.2]
    · exact eq_of_mem_reduceCandidates hg h hs hreduce' hact
  · exact (eq_of_mem_reduceCandidates hg h hs hreduce hact').symm

/-- **A table has no conflicts exactly if its automaton is adequate.** -/
theorem isLR0_iff_isAdequate (hg : A.Augments g) (hf : A.IsFresh g) :
    (ofAutomaton (ofAugmented A)).isLR0 ↔ (ofAugmented A).IsAdequate := by
  rw [isLR0_iff_candidates hg hf]
  constructor
  · intro h s hs
    have hmark : endMarker ∈ A.lookaheads := Augmented.mem_lookaheads.mpr (Or.inr rfl)
    refine ⟨fun i hi j hj hcomplete hcomplete' => ?_, fun i hi hcomplete hne t ht hterm => ?_⟩
    · -- both items want the cell before the end marker, so they are of one production
      have hwant := mem_candidates_of_isComplete (x := endMarker) hg hs hi hcomplete
      have hwant' := mem_candidates_of_isComplete (x := endMarker) hg hs hj hcomplete'
      have hproduction : i.production = j.production := by
        split_ifs at hwant hwant' with hzero hzero' hzero'
        · rw [hzero, hzero']
        · exact absurd (h s hs _ hmark _ hwant _ hwant') (by simp)
        · exact absurd (h s hs _ hmark _ hwant _ hwant') (by simp)
        · exact_mod_cast Action.reduce.inj (h s hs _ hmark _ hwant _ hwant')
      rw [(isComplete_iff hg.size_pos ⟨s, hs, rfl, hi⟩).mp hcomplete,
        (isComplete_iff hg.size_pos ⟨s, hs, rfl, hj⟩).mp hcomplete', hproduction]
    · have hreduce := mem_candidates_of_isComplete (x := t.symbol) hg hs hi hcomplete
      rw [if_neg hne] at hreduce
      have hshift : .shift t.target ∈ candidates (ofAugmented A) s t.symbol :=
        mem_candidates.mpr (Or.inl (mem_shiftCandidates.mpr ⟨t, ht, rfl, hterm, rfl⟩))
      have hx : t.symbol ∈ A.lookaheads := Augmented.mem_lookaheads.mpr (Or.inl hterm)
      exact absurd (h s hs _ hx _ hshift _ hreduce) (by simp)
  · exact fun h s hs x _ act hact act' hact' => candidates_eq_of_isAdequate hg h hs hact hact'

/-- **The goto part holds the moves over non-terminals.** -/
theorem get?_goto_iff_mem_nonTerminals (hg : A.Augments g) (hf : A.IsFresh g) {q r : ℤ} :
    (ofAutomaton (ofAugmented A)).goto.get? ⟨q, x⟩ = some r ↔
      x ∈ g.nonTerminals ∧ (ofAugmented A).Edge q x r := by
  rw [get?_goto_iff hg.size_pos, hg.terminals]
  constructor
  · rintro ⟨hedge, hterm, -⟩
    obtain ⟨i, hheld, hnext⟩ := hedge.exists_holds hg.size_pos
    have hp := Array.getElem?_eq_getElem (Augmented.mem_items.mp (hheld.mem_items hg.size_pos)).1
    have hx : x ∈ A.rhs i.production := List.mem_of_getElem? hnext
    rw [Augmented.rhs_eq hp] at hx
    exact ⟨(hg.rhs_mem hp hx).resolve_left hterm, hedge⟩
  · rintro ⟨hx, hedge⟩
    exact ⟨hedge, fun hterm => hg.wellFormed.disjoint x hterm hx,
      fun htop => hf.notMem_nonTerminals (htop ▸ hx)⟩

end OfAutomaton

/-- **The table holds the first candidate of every cell and records the others.** For a grammar that
was built from rows, with a prime marker that is not empty: before a terminal or the end marker the
table holds the first candidate of a state, if there is one, and the conflicts recorded there are
those of the other candidates, in order, each once. It holds no further actions and records no
further conflicts. The goto part holds the moves over non-terminals. And the table has no conflicts
exactly if the automaton is adequate. -/
theorem ofAutomaton_candidates {rows : List Row} {g : Grammar} {settings : Settings} {a : Automaton}
    (hg : Grammar.ofRows rows = .ok g) (ha : Automaton.ofGrammar g settings = .ok a) :
    (∀ s ∈ a.states, ∀ x, x ∈ g.terminals ∨ x = endMarker →
      (ofAutomaton a).action.get? ⟨s.id, x⟩ = (candidates a s x).head? ∧
      (ofAutomaton a).conflictsAt ⟨s.id, x⟩ = candidateConflicts a s x ∧
      (candidates a s x).Nodup) ∧
    (∀ c act, (ofAutomaton a).action.get? c = some act → IsActionCell a c) ∧
    (∀ k ∈ (ofAutomaton a).conflicts, IsActionCell a ⟨k.state, k.symbol⟩) ∧
    (∀ q x r, (ofAutomaton a).goto.get? ⟨q, x⟩ = some r ↔ x ∈ g.nonTerminals ∧ a.Edge q x r) ∧
    ((ofAutomaton a).isLR0 ↔ a.IsAdequate) := by
  obtain ⟨A, rfl, haug, hfresh⟩ := exists_augments hg ha
  have hA := haug.size_pos
  refine ⟨fun s hs x hx => ?_, fun c act h => (justified_of_get? hA h).isActionCell hA,
    fun k hk => (isActionCell_of_mem_conflicts hA hk).2,
    fun q x r => get?_goto_iff_mem_nonTerminals haug hfresh, isLR0_iff_isAdequate haug hfresh⟩
  have hx' : x ∈ A.lookaheads := Augmented.mem_lookaheads.mpr (haug.terminals ▸ hx)
  exact ⟨get?_eq_head?_candidates haug hfresh hs hx',
    conflictsAt_eq_candidateConflicts haug hfresh hs hx', nodup_candidates hA⟩

/-- The rows of a grammar of sums that leaves open how they are bracketed. -/
def sumRows : List Row :=
  [⟨"1", "E", ["E + E", "i"], false⟩]

/-- The grammar of sums. -/
def sums : Grammar where
  start := "E"
  nonTerminals := .ofList ["E"]
  terminals := .ofList ["+", "i"]
  productions := [⟨0, "E", ["E", "+", "E"], "E -> E + E"⟩, ⟨1, "E", ["i"], "E -> i"⟩]

/-- The companion of the grammar of sums. -/
def sumsAugmented : Augmented where
  start := "E"
  top := "E'"
  productions := #[⟨0, "E'", ["E"], "E' -> E"⟩, ⟨1, "E", ["E", "+", "E"], "E -> E + E"⟩,
    ⟨2, "E", ["i"], "E -> i"⟩]
  terminals := .ofList ["+", "i"]
  nonTerminals := .ofList ["E", "E'"]
  id_eq := Augmented.id_eq_of_forall_zipIdx (by decide)
  exists_first := ⟨_, rfl, rfl, rfl⟩

theorem ofAutomaton_candidates_sums :
    (ofAutomaton (ofAugmented sumsAugmented)).action.get? ⟨4, "+"⟩ = some (.shift 3) ∧
      ((ofAutomaton (ofAugmented sumsAugmented)).conflictsAt ⟨4, "+"⟩).map
        (fun k => (k.existing, k.incoming, k.kind)) = [(.shift 3, .reduce 1, .shiftReduce)] ∧
      ¬(ofAugmented sumsAugmented).IsAdequate := by
  have hg : Grammar.ofRows sumRows = .ok sums := by decide +kernel
  have ha : Automaton.ofGrammar sums {} = .ok (ofAugmented sumsAugmented) := rfl
  obtain ⟨hcells, -, -, -, hadequate⟩ := ofAutomaton_candidates hg ha
  have hs : (⟨4, [⟨1, 1⟩, ⟨1, 3⟩], "1@1|1@3"⟩ : State) ∈ (ofAugmented sumsAugmented).states := by
    decide +kernel
  obtain ⟨haction, hconflicts, -⟩ := hcells _ hs "+" (Or.inl (by decide))
  have hcandidates : candidates (ofAugmented sumsAugmented)
      ⟨4, [⟨1, 1⟩, ⟨1, 3⟩], "1@1|1@3"⟩ "+" = [.shift 3, .reduce 1] := by decide +kernel
  rw [hcandidates] at haction
  rw [candidateConflicts, hcandidates] at hconflicts
  change _ = some (Action.shift 3) at haction
  refine ⟨haction, ?_, fun h => ?_⟩
  · exact congrArg (List.map fun k => (k.existing, k.incoming, k.kind)) hconflicts
  · have hempty := Array.isEmpty_iff.mp (hadequate.mpr h)
    rw [conflictsAt, hempty] at hconflicts
    exact absurd hconflicts (by simp)

end Table

end ShiftReduce
