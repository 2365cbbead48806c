import Mathlib.Data.List.Nodup
import ShiftReduce.Proofs.Table.Adequacy

/-!
# The reasons that a conflict gives

A conflict names the two actions that want one cell, and for each of them the items of the state
that it comes from. These items are looked up when the conflict is recorded, by another rule than
the one by which the action was made. A shift is made from a move of the state, but looked up by the
symbols behind the dots; success is made from a completed production of the fresh start symbol, but
looked up by the number zero.

The two rules find the same. An item is a *cause* of an action (`ShiftReduce.Table.IsCause`) if the
state writes the action on account of it. The causes of an action that wants a cell can be told in
one line each (`ShiftReduce.Table.reasons`), and they are what is looked up
(`ShiftReduce.Table.justifying_eq_reasons`); there is always one of them. So the texts that a
conflict gives are those of the causes of its actions
(`ShiftReduce.Table.ofAutomaton_explained`). For success this rests on the freshness of the start
symbol, and for shifts on the moves being the gotos.
-/

namespace ShiftReduce

namespace Table

open Automaton

/-- **An item is a cause of an action** that wants the cell of a state before a symbol. -/
inductive IsCause (m : Automaton) (s : State) (x : Symbol) : Action → Item → Prop
  /-- The dot of the item can be moved over the terminal, and that move is what shifts. -/
  | moved {i : Item} {r : ℕ} : (⟨s.id, x, r⟩ : Transition) ∈ m.transitions →
      x ∈ m.grammar.terminals → m.grammar.nextSymbol i = some x → IsCause m s x (.shift r) i
  /-- The item is completed and writes the action. -/
  | completed {i : Item} {act : Action} : ⟨s, x, act⟩ ∈ itemWrites m s i → IsCause m s x act i

/-- The causes of an action, told by the action: for a shift the items with the symbol behind the
dot, for a reduction the completed item of the production, and for success that of the production
of the fresh start symbol. -/
def reasons (m : Automaton) (s : State) (x : Symbol) : Action → List Item
  | .shift _ => s.items.filter fun i => m.grammar.nextSymbol i = some x
  | .reduce p => [⟨p.toNat, (m.grammar.rhs p.toNat).length⟩]
  | .accept => [⟨0, (m.grammar.rhs 0).length⟩]

/-- **Texts explain an action** that wants a cell of a state: they show the causes that the state
has for it, all of them, in the order of its items, and there is one. -/
structure Explains (m : Automaton) (s : State) (x : Symbol) (act : Action) (texts : List String) :
    Prop where
  /-- The texts show the reasons for the action. -/
  texts_eq : texts = (reasons m s x act).map m.grammar.itemText
  /-- There is a reason. -/
  ne_nil : texts ≠ []
  /-- The reasons are items of the state, in their order. -/
  sublist : (reasons m s x act).Sublist s.items
  /-- They are the causes of the action. -/
  mem_iff : ∀ i, i ∈ reasons m s x act ↔ i ∈ s.items ∧ IsCause m s x act i

section OfAutomaton

variable {A : Augmented} {g : Grammar} {s : State} {x : Symbol} {act : Action} {p : ℕ}

/-- The items of a state come once each. -/
theorem nodup_items (hA : 0 < A.productions.size) (hs : s ∈ (ofAugmented A).states) :
    s.items.Nodup := by
  refine ((isCanonical_ofAugmented hA).ascending s hs).imp fun {i j} hlt => ?_
  rintro rfl
  exact Std.Irrefl.irrefl i hlt

/-- A state that holds the completed item of a production holds no other one of it. -/
theorem filter_isComplete (hA : 0 < A.productions.size) (hs : s ∈ (ofAugmented A).states)
    (hp : (⟨p, (A.rhs p).length⟩ : Item) ∈ s.items) :
    s.items.filter (fun i => i.production = p ∧ A.isComplete i) = [⟨p, (A.rhs p).length⟩] := by
  have hone : ∀ i ∈ s.items, decide (i.production = p ∧ A.isComplete i) =
      decide (i = ⟨p, (A.rhs p).length⟩) := by
    intro i hi
    refine decide_eq_decide.mpr ⟨?_, ?_⟩
    · rintro ⟨rfl, hcomplete⟩
      exact (isComplete_iff hA ⟨s, hs, rfl, hi⟩).mp hcomplete
    · rintro rfl
      exact ⟨rfl, (isComplete_iff hA ⟨s, hs, rfl, hi⟩).mpr rfl⟩
  rw [List.filter_congr hone, List.filter_eq, List.count_eq_one_of_mem (nodup_items hA hs) hp]
  rfl

/-- In a state of the automaton the fresh start symbol has no production but the first. -/
theorem lhs_eq_top_iff (hg : A.Augments g) (hf : A.IsFresh g) (hs : s ∈ (ofAugmented A).states)
    {i : Item} (hi : i ∈ s.items) : A.lhs i.production = A.top ↔ i.production = 0 := by
  obtain ⟨p, hp, -⟩ := (isCanonical_ofAugmented hg.size_pos).dot_le s hs i hi
  rw [Augmented.lhs_eq (show A.productions[i.production]? = some p from hp)]
  exact hf.lhs_eq_top_iff hg hp

/-! ### Causes of the candidates for a cell -/

/-- What a candidate for a cell comes from. -/
theorem candidates_cases {m : Automaton} (h : act ∈ candidates m s x) :
    (∃ r : ℕ, act = .shift r ∧ (⟨s.id, x, r⟩ : Transition) ∈ m.transitions ∧
        x ∈ m.grammar.terminals) ∨
      (act = .accept ∧ x = endMarker ∧ acceptItem ∈ s.items) ∨
      ∃ p : ℕ, act = .reduce p ∧ 1 ≤ p ∧ Completes m s p := by
  rcases mem_candidates.mp h with hshift | haccept | hreduce
  · obtain ⟨t, ht, rfl, hx, rfl⟩ := mem_shiftCandidates.mp hshift
    obtain ⟨ht, hsource⟩ := List.mem_filter.mp ht
    refine Or.inl ⟨t.target, rfl, ?_, hx⟩
    rw [← of_decide_eq_true hsource]
    exact ht
  · obtain ⟨hx, hitem, rfl⟩ := mem_acceptCandidates.mp haccept
    exact Or.inr (Or.inl ⟨rfl, hx, hitem⟩)
  · obtain ⟨p, -, hpos, hcompletes, rfl⟩ := mem_reduceCandidates.mp hreduce
    exact Or.inr (Or.inr ⟨p, rfl, hpos, hcompletes⟩)

theorem isCause_shift_iff {m : Automaton} {i : Item} {r : ℕ}
    (hmove : (⟨s.id, x, r⟩ : Transition) ∈ m.transitions) (hx : x ∈ m.grammar.terminals) :
    IsCause m s x (.shift r) i ↔ m.grammar.nextSymbol i = some x := by
  refine ⟨fun h => ?_, .moved hmove hx⟩
  cases h with
  | moved _ _ hnext => exact hnext
  | completed hwrite =>
    rcases (mem_itemWrites.mp hwrite).2 with ⟨-, heq⟩ | ⟨-, y, -, heq⟩
    · exact absurd (Write.mk.inj heq).2.2 (by simp)
    · exact absurd (Write.mk.inj heq).2.2 (by simp)

/-- Success is caused by what completes the first production. -/
theorem isCause_accept_iff (hg : A.Augments g) (hf : A.IsFresh g)
    (hs : s ∈ (ofAugmented A).states) {i : Item} (hi : i ∈ s.items) :
    IsCause (ofAugmented A) s endMarker .accept i ↔ i.production = 0 ∧ A.isComplete i := by
  rw [← lhs_eq_top_iff hg hf hs hi]
  constructor
  · rintro (_ | hwrite)
    obtain ⟨hcomplete, ⟨htop, -⟩ | ⟨-, y, -, heq⟩⟩ := mem_itemWrites.mp hwrite
    · exact ⟨htop, hcomplete⟩
    · exact absurd (Write.mk.inj heq).2.2 (by simp)
  · rintro ⟨htop, hcomplete⟩
    exact .completed (mem_itemWrites.mpr ⟨hcomplete, Or.inl ⟨htop, rfl⟩⟩)

/-- A reduction is caused by what completes its production. -/
theorem isCause_reduce_iff (hg : A.Augments g) (hf : A.IsFresh g)
    (hs : s ∈ (ofAugmented A).states) {i : Item} (hi : i ∈ s.items) (hp : 1 ≤ p)
    (hx : x ∈ A.lookaheads) :
    IsCause (ofAugmented A) s x (.reduce p) i ↔ i.production = p ∧ A.isComplete i := by
  constructor
  · rintro (_ | hwrite)
    obtain ⟨hcomplete, ⟨-, heq⟩ | ⟨-, y, -, heq⟩⟩ := mem_itemWrites.mp hwrite
    · exact absurd (Write.mk.inj heq).2.2 (by simp)
    · have hnumber : (p : ℤ) = i.production := Action.reduce.inj (Write.mk.inj heq).2.2
      exact ⟨by exact_mod_cast hnumber.symm, hcomplete⟩
  · rintro ⟨rfl, hcomplete⟩
    have htop : A.lhs i.production ≠ A.top := fun htop =>
      absurd ((lhs_eq_top_iff hg hf hs hi).mp htop) (Nat.pos_iff_ne_zero.mp hp)
    exact .completed (mem_itemWrites.mpr ⟨hcomplete, Or.inr ⟨htop, x, hx, rfl⟩⟩)

/-! ### What is looked up -/

/-- **What is looked up for a candidate are its reasons**, and these are its causes. -/
theorem justifying_eq_reasons (hg : A.Augments g) (hf : A.IsFresh g)
    (hs : s ∈ (ofAugmented A).states) (hx : x ∈ A.lookaheads)
    (hact : act ∈ candidates (ofAugmented A) s x) :
    justifying A s x act = reasons (ofAugmented A) s x act ∧ justifying A s x act ≠ [] ∧
      ∀ i, i ∈ justifying A s x act ↔ i ∈ s.items ∧ IsCause (ofAugmented A) s x act i := by
  rcases candidates_cases hact with
    ⟨r, rfl, hmove, hterm⟩ | ⟨rfl, rfl, hitem⟩ | ⟨p, rfl, hp, hcompletes⟩
  · refine ⟨rfl, ?_, fun i => ?_⟩
    · obtain ⟨i, hheld, hnext⟩ :=
        Edge.exists_holds hg.size_pos ⟨_, hmove, rfl, rfl, rfl⟩
      refine List.ne_nil_of_mem (a := i) (List.mem_filter.mpr ⟨?_, decide_eq_true hnext⟩)
      exact (holds_natCast_iff hg.size_pos ((mem_states_iff hg.size_pos).mp hs)).mp hheld
    · rw [justifying, List.mem_filter, decide_eq_true_eq, isCause_shift_iff hmove hterm]
      rfl
  · obtain ⟨authored, hfirst⟩ := hg.first
    have hend : (⟨0, (A.rhs 0).length⟩ : Item) ∈ s.items := by
      rw [Augmented.rhs_eq hfirst]
      exact hitem
    have hone : justifying A s endMarker .accept = [⟨0, (A.rhs 0).length⟩] :=
      filter_isComplete hg.size_pos hs hend
    refine ⟨hone, by rw [hone]; simp, fun i => ?_⟩
    rw [justifying, List.mem_filter, decide_eq_true_eq]
    exact and_congr_right fun hi => (isCause_accept_iff hg hf hs hi).symm
  · have hone : justifying A s x (.reduce p) = [⟨p, (A.rhs p).length⟩] := by
      simp only [justifying, Int.natCast_inj]
      exact filter_isComplete hg.size_pos hs ((completes_iff hg.size_pos hs).mp hcompletes)
    refine ⟨hone, by rw [hone]; simp, fun i => ?_⟩
    rw [justifying, List.mem_filter, decide_eq_true_eq, Int.natCast_inj]
    exact and_congr_right fun hi => (isCause_reduce_iff hg hf hs hi hp hx).symm

/-- The texts of what is looked up for a candidate explain it. -/
theorem explains_justifying (hg : A.Augments g) (hf : A.IsFresh g)
    (hs : s ∈ (ofAugmented A).states) (hx : x ∈ A.lookaheads)
    (hact : act ∈ candidates (ofAugmented A) s x) :
    Explains (ofAugmented A) s x act ((justifying A s x act).map A.itemText) := by
  obtain ⟨heq, hne, hmem⟩ := justifying_eq_reasons hg hf hs hx hact
  have hsub : (justifying A s x act).Sublist s.items := by
    cases act <;> exact List.filter_sublist
  exact ⟨by rw [heq]; rfl, by simpa using hne, heq ▸ hsub, heq ▸ hmem⟩

end OfAutomaton

/-- **Every conflict is explained.** For a grammar that was built from rows, with a prime marker
that is not empty: a conflict of the table belongs to a state of the automaton, the action that it
calls kept is the one in the cell, the other one differs from it, and the texts that it gives
explain the two. Production zero is the one from the fresh start symbol to the old one. -/
theorem ofAutomaton_explained {rows : List Row} {g : Grammar} {settings : Settings} {a : Automaton}
    (hg : Grammar.ofRows rows = .ok g) (ha : Automaton.ofGrammar g settings = .ok a) :
    a.grammar.lhs 0 = a.grammar.top ∧ a.grammar.rhs 0 = [g.start] ∧
    ∀ k ∈ (ofAutomaton a).conflicts, ∃ s ∈ a.states, k.state = s.id ∧
      (ofAutomaton a).action.get? ⟨k.state, k.symbol⟩ = some k.existing ∧
      k.incoming ≠ k.existing ∧
      Explains a s k.symbol k.existing k.existingItems ∧
      Explains a s k.symbol k.incoming k.incomingItems := by
  obtain ⟨A, rfl, haug, hfresh⟩ := exists_augments hg ha
  obtain ⟨authored, hfirst⟩ := haug.first
  refine ⟨Augmented.lhs_eq hfirst, Augmented.rhs_eq hfirst, fun k hk => ?_⟩
  obtain ⟨hmem, ⟨s, hs, hid⟩, hx⟩ := isActionCell_of_mem_conflicts haug.size_pos hk
  have hx' : k.symbol ∈ A.lookaheads := Augmented.mem_lookaheads.mpr hx
  change (s.id : ℤ) = k.state at hid
  refine ⟨s, hs, hid.symm, ?_⟩
  rw [← hid, conflictsAt_eq_candidateConflicts haug hfresh hs hx', candidateConflicts] at hmem
  rw [← hid, get?_eq_head?_candidates haug hfresh hs hx']
  have hexplains : ∀ act ∈ candidates (ofAugmented A) s k.symbol,
      Explains (ofAugmented A) s k.symbol act ((justifying A s k.symbol act).map A.itemText) :=
    fun act => explains_justifying haug hfresh hs hx'
  have hnodup := nodup_candidates (s := s) (x := k.symbol) haug.size_pos
  -- the conflict is that of the first candidate and a later one
  rcases hacts : candidates (ofAugmented A) s k.symbol with _ | ⟨first, later⟩
  · rw [hacts] at hmem
    exact absurd hmem List.not_mem_nil
  · rw [hacts] at hmem hexplains hnodup
    obtain ⟨rejected, hrejected, hk⟩ := List.mem_map.mp hmem
    rw [← hk] at hexplains ⊢
    refine ⟨rfl, fun heq : rejected = first => ?_, ?_, ?_⟩
    · exact (List.nodup_cons.mp hnodup).1 (heq ▸ hrejected)
    · exact hexplains first List.mem_cons_self
    · exact hexplains rejected (List.mem_cons_of_mem _ hrejected)

theorem ofAutomaton_explained_sums :
    ∃ k ∈ (ofAutomaton (ofAugmented sumsAugmented)).conflicts,
      k.existingItems = ["E -> E • + E"] ∧ k.incomingItems = ["E -> E + E •"] ∧
      ∃ s ∈ (ofAugmented sumsAugmented).states,
        Explains (ofAugmented sumsAugmented) s k.symbol k.existing k.existingItems ∧
        Explains (ofAugmented sumsAugmented) s k.symbol k.incoming k.incomingItems := by
  have hg : Grammar.ofRows sumRows = .ok sums := by decide +kernel
  have ha : Automaton.ofGrammar sums {} = .ok (ofAugmented sumsAugmented) := rfl
  obtain ⟨-, -, hconflicts⟩ := ofAutomaton_explained hg ha
  have hone : (ofAutomaton (ofAugmented sumsAugmented)).conflicts.toList.map
      (fun k => (k.existingItems, k.incomingItems)) = [(["E -> E • + E"], ["E -> E + E •"])] := by
    decide +kernel
  obtain ⟨k, hk, hitems⟩ := List.map_eq_singleton_iff.mp hone
  have hmem : k ∈ (ofAutomaton (ofAugmented sumsAugmented)).conflicts :=
    Array.mem_toList_iff.mp (hk ▸ List.mem_singleton_self k)
  obtain ⟨s, hs, -, -, -, hexisting, hincoming⟩ := hconflicts k hmem
  obtain ⟨hexistingItems, hincomingItems⟩ := Prod.mk.inj hitems
  exact ⟨k, hmem, hexistingItems, hincomingItems, s, hs, hexisting, hincoming⟩

end Table

end ShiftReduce
