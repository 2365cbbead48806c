import Mathlib.Algebra.GroupWithZero.Nat
import ShiftReduce.Proofs.Automaton.Edge
import ShiftReduce.Proofs.Item.Renumbered

/-!
# The automaton of a grammar with other numbers

The order of the productions decides in which order states are discovered, so two grammars that
differ in the numbers of their productions have automata in which all states may be numbered
differently. Still each state has a *twin* in the other automaton, which holds the counterparts of
its items (`ShiftReduce.Automaton.Twins`). The start states are twins
(`ShiftReduce.Automaton.twins_start`), and what one edge leads to from a state is the twin of what
the edge over the same symbol leads to from its twin (`ShiftReduce.Automaton.Twins.exists_edge`).

Put in the order of their twins, the states of the one automaton are those of the other
(`ShiftReduce.Automaton.exists_states_perm`). So whatever is counted state by state and is the same
for twins is the same for both automata (`ShiftReduce.Automaton.sum_states_eq`), and in particular
they have as many states and as many moves.
-/

namespace ShiftReduce

/-! ### Lists whose members are paired off -/

/-- Two lists without repetition whose members are paired off by a relation are the same up to the
relation and their order. -/
theorem exists_forall₂_perm {α β : Type} [DecidableEq β] {R : α → β → Prop} {l : List α}
    {m : List β} (hl : l.Nodup) (hm : m.Nodup) (hleft : ∀ a ∈ l, ∃ b ∈ m, R a b)
    (hright : ∀ b ∈ m, ∃ a ∈ l, R a b)
    (hfunctional : ∀ a ∈ l, ∀ b ∈ m, ∀ b' ∈ m, R a b → R a b' → b = b')
    (hinjective : ∀ a ∈ l, ∀ a' ∈ l, ∀ b ∈ m, R a b → R a' b → a = a') :
    ∃ m', m'.Perm m ∧ List.Forall₂ R l m' := by
  induction l generalizing m with
  | nil =>
    have hnil : m = [] := List.eq_nil_iff_forall_not_mem.mpr fun b hb => by
      obtain ⟨a, ha, -⟩ := hright b hb
      exact absurd ha List.not_mem_nil
    exact ⟨[], hnil ▸ List.Perm.refl _, .nil⟩
  | cons a l ih =>
    obtain ⟨ha, hl⟩ := List.nodup_cons.mp hl
    obtain ⟨b, hb, hab⟩ := hleft a List.mem_cons_self
    have hmem : ∀ c, c ∈ m.erase b ↔ c ≠ b ∧ c ∈ m := fun c => hm.mem_erase_iff
    obtain ⟨m', hperm, hpairs⟩ := ih (m := m.erase b) hl (hm.erase b)
      (fun a' ha' => by
        obtain ⟨b', hb', hab'⟩ := hleft a' (List.mem_cons_of_mem a ha')
        refine ⟨b', (hmem b').mpr ⟨fun heq => ha ?_, hb'⟩, hab'⟩
        rw [hinjective a List.mem_cons_self a' (List.mem_cons_of_mem a ha') b hb hab (heq ▸ hab')]
        exact ha')
      (fun b' hb' => by
        obtain ⟨hne, hb'⟩ := (hmem b').mp hb'
        obtain ⟨a', ha', hab'⟩ := hright b' hb'
        rcases List.mem_cons.mp ha' with rfl | ha'
        · exact absurd (hfunctional a' List.mem_cons_self b' hb' b hb hab' hab) hne
        · exact ⟨a', ha', hab'⟩)
      (fun a' ha' c hc c' hc' => hfunctional a' (List.mem_cons_of_mem a ha') c ((hmem c).mp hc).2
        c' ((hmem c').mp hc').2)
      (fun a' ha' a'' ha'' c hc => hinjective a' (List.mem_cons_of_mem a ha') a''
        (List.mem_cons_of_mem a ha'') c ((hmem c).mp hc).2)
    exact ⟨b :: m', (hperm.cons b).trans (List.perm_cons_erase hb).symm, .cons hab hpairs⟩

namespace Automaton

open Augmented

/-! ### Twins -/

/-- **Twin states**: the states of these numbers hold the counterparts of each other's items. -/
def Twins (π : Equiv.Perm ℕ) (m m' : Automaton) (q r : ℤ) : Prop :=
  ∃ s ∈ m.states, ∃ t ∈ m'.states, (s.id : ℤ) = q ∧ (t.id : ℤ) = r ∧ Matches π s.items t.items

theorem Twins.symm {π : Equiv.Perm ℕ} {m m' : Automaton} {q r : ℤ} (h : Twins π m m' q r) :
    Twins π.symm m' m r q := by
  obtain ⟨s, hs, t, ht, hq, hr, hmatch⟩ := h
  exact ⟨t, ht, s, hs, hr, hq, hmatch.symm⟩

section OfAugmented

variable {π : Equiv.Perm ℕ} {A B : Augmented} {q q' r r' : ℤ} {i : Item} {X : Symbol} {s t : State}

/-- The state that a number stands for, among those of the canonical collection. -/
theorem exists_state_of_twins (hA : 0 < A.productions.size) (hB : 0 < B.productions.size)
    (h : Twins π (ofAugmented A) (ofAugmented B) q r) :
    ∃ (j k : ℕ) (s t : State), q = j ∧ r = k ∧ (Collection.canonical A).states[j]? = some s ∧
      (Collection.canonical B).states[k]? = some t ∧ Matches π s.items t.items := by
  obtain ⟨s, hs, t, ht, rfl, rfl, hmatch⟩ := h
  exact ⟨s.id, t.id, s, t, rfl, rfl, (mem_states_iff hA).mp hs, (mem_states_iff hB).mp ht, hmatch⟩

theorem twins_of_getElem? (hA : 0 < A.productions.size) (hB : 0 < B.productions.size) {j k : ℕ}
    (hs : (Collection.canonical A).states[j]? = some s)
    (ht : (Collection.canonical B).states[k]? = some t) (hmatch : Matches π s.items t.items) :
    Twins π (ofAugmented A) (ofAugmented B) j k := by
  have hsid := (Collection.sound_canonical hA).id_eq j s hs
  have htid := (Collection.sound_canonical hB).id_eq k t ht
  exact ⟨s, (mem_states_iff hA).mpr (hsid ▸ hs), t, (mem_states_iff hB).mpr (htid ▸ ht),
    by rw [hsid], by rw [htid], hmatch⟩

variable (h : A.Renumbered π B) (hA : 0 < A.productions.size)
include h hA

/-- **Twins hold the counterparts of each other's items.** -/
theorem Twins.holds_relabel (htwins : Twins π (ofAugmented A) (ofAugmented B) q r) :
    (ofAugmented B).Holds r (i.relabel π) ↔ (ofAugmented A).Holds q i := by
  have hB := h.size_pos hA
  obtain ⟨j, k, s, t, rfl, rfl, hs, ht, hmatch⟩ := exists_state_of_twins hA hB htwins
  rw [holds_natCast_iff hA hs, holds_natCast_iff hB ht]
  exact hmatch i

/-- **The start states are twins.** -/
theorem twins_start : Twins π (ofAugmented A) (ofAugmented B) start start := by
  have hB := h.size_pos hA
  obtain ⟨s, hs, hitems⟩ := Collection.canonical_zero hA
  obtain ⟨t, ht, hitems'⟩ := Collection.canonical_zero hB
  exact twins_of_getElem? hA hB hs ht (by rw [hitems, hitems']; exact h.matches_first)

/-- **An edge from a state leads to the twin of what the edge from its twin leads to.** -/
theorem Twins.exists_edge (htwins : Twins π (ofAugmented A) (ofAugmented B) q r)
    (hedge : (ofAugmented A).Edge q X q') :
    ∃ r', (ofAugmented B).Edge r X r' ∧ Twins π (ofAugmented A) (ofAugmented B) q' r' := by
  have hB := h.size_pos hA
  obtain ⟨j, k, s, t, rfl, rfl, hs, ht, hmatch⟩ := exists_state_of_twins hA hB htwins
  obtain ⟨j', l, s₀, s', hj, rfl, hs₀, hs', hX, hgoto⟩ := hedge.exists_states hA
  obtain rfl : j = j' := by exact_mod_cast hj
  obtain rfl : s = s₀ := Option.some.inj (hs.symm.trans hs₀)
  obtain ⟨move, hmove, rfl, rfl, t', ht', hgoto'⟩ :=
    Collection.exists_move hB ht ((hmatch.mem_symbolsAfterDot h).mpr hX)
  refine ⟨move.target, ⟨move, Array.mem_toList_iff.mpr hmove, rfl, rfl, rfl⟩, ?_⟩
  exact twins_of_getElem? hA hB hs' ht' (by rw [hgoto, hgoto']; exact hmatch.goto h move.symbol)

/-- **Every state has a twin.** -/
theorem exists_twin (hs : s ∈ (ofAugmented A).states) :
    ∃ t ∈ (ofAugmented B).states, Matches π s.items t.items := by
  obtain ⟨items', hreach, hmatch⟩ :=
    Reachable.exists_matches h (((isCanonical_ofAugmented hA).reachable _).mp ⟨s, hs, rfl⟩)
  obtain ⟨t, ht, rfl⟩ := ((isCanonical_ofAugmented (h.size_pos hA)).reachable _).mpr hreach
  exact ⟨t, ht, hmatch⟩

end OfAugmented

/-! ### Counting state by state -/

section Counting

variable {π : Equiv.Perm ℕ} {A B : Augmented} {s s' : State}

theorem nodup_states (hA : 0 < A.productions.size) : (ofAugmented A).states.Nodup :=
  List.Nodup.of_map (·.id) (nodup_map_id hA)

/-- States of an automaton that hold the same items are one. -/
theorem eq_of_mem_items_iff (hA : 0 < A.productions.size) (hs : s ∈ (ofAugmented A).states)
    (hs' : s' ∈ (ofAugmented A).states) (hitems : ∀ i, i ∈ s.items ↔ i ∈ s'.items) : s = s' := by
  rw [mem_states_iff hA] at hs hs'
  have hid := (Collection.sound_canonical hA).eq_of_mem_iff hs hs' hitems
  rw [hid] at hs
  exact Option.some.inj (hs.symm.trans hs')

variable (h : A.Renumbered π B) (hA : 0 < A.productions.size)
include h hA

/-- **In the order of their twins, the states of the one automaton are those of the other.** -/
theorem exists_states_perm : ∃ twins, twins.Perm (ofAugmented B).states ∧
    List.Forall₂ (fun s t => Matches π s.items t.items) (ofAugmented A).states twins := by
  have hB := h.size_pos hA
  refine exists_forall₂_perm (nodup_states hA) (nodup_states hB) (fun s hs => exists_twin h hA hs)
    (fun t ht => ?_) (fun s _ t ht t' ht' hmatch hmatch' => ?_)
    (fun s hs s' hs' t _ hmatch hmatch' => ?_)
  · obtain ⟨s, hs, hmatch⟩ := exists_twin h.symm hB ht
    exact ⟨s, hs, hmatch.symm⟩
  · refine eq_of_mem_items_iff hB ht ht' fun i => ?_
    rw [← hmatch.symm i, ← hmatch'.symm i]
  · refine eq_of_mem_items_iff hA hs hs' fun i => ?_
    rw [← hmatch i, ← hmatch' i]

/-- **What is counted state by state and is the same for twins is the same for both automata.** -/
theorem sum_states_eq {f f' : State → ℕ}
    (hf : ∀ s ∈ (ofAugmented A).states, ∀ t ∈ (ofAugmented B).states,
      Matches π s.items t.items → f s = f' t) :
    ((ofAugmented A).states.map f).sum = ((ofAugmented B).states.map f').sum := by
  obtain ⟨twins, hperm, hpairs⟩ := exists_states_perm h hA
  have hmap : ∀ (states twins : List State), states ⊆ (ofAugmented A).states →
      twins ⊆ (ofAugmented B).states →
      List.Forall₂ (fun s t => Matches π s.items t.items) states twins →
      states.map f = twins.map f' := by
    intro states twins hstates htwins hpairs
    induction hpairs with
    | nil => rfl
    | cons hmatch _ ih =>
      obtain ⟨hs, hstates⟩ := List.cons_subset.mp hstates
      obtain ⟨ht, htwins⟩ := List.cons_subset.mp htwins
      rw [List.map_cons, List.map_cons, hf _ hs _ ht hmatch, ih hstates htwins]
  rw [hmap _ _ (List.Subset.refl _) hperm.subset hpairs]
  exact (hperm.map f').sum_eq

/-- **Both automata have as many states.** -/
theorem length_states_eq :
    (ofAugmented A).states.length = (ofAugmented B).states.length := by
  obtain ⟨twins, hperm, hpairs⟩ := exists_states_perm h hA
  rw [hpairs.length_eq, hperm.length_eq]

/-- **Both automata have as many moves.** -/
theorem length_transitions_eq :
    (ofAugmented A).transitions.length = (ofAugmented B).transitions.length := by
  have hcount : ∀ C : Augmented, 0 < C.productions.size → (ofAugmented C).transitions.length =
      ((ofAugmented C).states.map fun s => (C.symbolsAfterDot s.items).length).sum := by
    intro C hC
    have hkeys := congrArg List.length (Collection.visited_canonical hC)
    simpa [ofAugmented, Collection.keys, Collection.stateKeys, List.length_flatMap] using hkeys
  rw [hcount A hA, hcount B (h.size_pos hA)]
  refine sum_states_eq h hA fun s _ t _ hmatch => ?_
  have hperm : (A.symbolsAfterDot s.items).Perm (B.symbolsAfterDot t.items) :=
    (List.perm_ext_iff_of_nodup (A.nodup_symbolsAfterDot _) (B.nodup_symbolsAfterDot _)).mpr
      fun X => (hmatch.mem_symbolsAfterDot h).symm
  exact hperm.length_eq

end Counting

end Automaton

end ShiftReduce
