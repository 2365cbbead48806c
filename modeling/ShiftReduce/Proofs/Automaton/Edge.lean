import ShiftReduce.Automaton.Basic
import ShiftReduce.Proofs.Automaton.Collection

/-!
# States and edges of an automaton, by number

A machine knows a state by its number only. So the automaton is looked at in two ways here: a
number *holds* an item if the state of that number does, and two numbers are joined by an *edge*
over a symbol if some transition joins them. Numbers are integers, since that is what a table
gives.

For the automaton of an augmented grammar these two relations determine each other, and the lemmas
of this file are all that is used of it later on. An edge over a symbol leaves a number exactly
if it holds an item with the symbol behind the dot (`ShiftReduce.Automaton.Holds.exists_edge`,
`ShiftReduce.Automaton.Edge.exists_holds`), and there is one such edge at most
(`ShiftReduce.Automaton.Edge.eq`). What the end of an edge holds was moved along it, if the dot is
further on (`ShiftReduce.Automaton.Edge.holds_succ`), or follows from what was moved by asking
(`ShiftReduce.Automaton.Edge.holds_induction`).
-/

namespace ShiftReduce

namespace Automaton

/-- The state of that number holds the item. -/
def Holds (m : Automaton) (q : ℤ) (i : Item) : Prop :=
  ∃ s ∈ m.states, (s.id : ℤ) = q ∧ i ∈ s.items

/-- A transition over the symbol joins the states of these numbers. -/
def Edge (m : Automaton) (q : ℤ) (X : Symbol) (r : ℤ) : Prop :=
  ∃ t ∈ m.transitions, (t.source : ℤ) = q ∧ t.symbol = X ∧ (t.target : ℤ) = r

section OfAugmented

variable {A : Augmented} {q r : ℤ} {X : Symbol} {i j : Item} {k p d : ℕ}

/-! ### Numbers and places -/

theorem mem_states_iff (hA : 0 < A.productions.size) {s : State} :
    s ∈ (ofAugmented A).states ↔ (Collection.canonical A).states[s.id]? = some s := by
  constructor
  · intro hs
    obtain ⟨k, hk⟩ := List.mem_iff_getElem?.mp hs
    have hk' : (Collection.canonical A).states[k]? = some s := by
      rw [← Array.getElem?_toList]
      exact hk
    rw [(Collection.sound_canonical hA).id_eq k s hk']
    exact hk'
  · intro hs
    rw [← Array.getElem?_toList] at hs
    exact List.mem_of_getElem? hs

theorem holds_iff (hA : 0 < A.productions.size) :
    (ofAugmented A).Holds q i ↔
      ∃ (k : ℕ) (s : State), q = k ∧ (Collection.canonical A).states[k]? = some s ∧
        i ∈ s.items := by
  constructor
  · rintro ⟨s, hs, rfl, hi⟩
    exact ⟨s.id, s, rfl, (mem_states_iff hA).mp hs, hi⟩
  · rintro ⟨k, s, rfl, hs, hi⟩
    have hid := (Collection.sound_canonical hA).id_eq k s hs
    refine ⟨s, (mem_states_iff hA).mpr (by rw [hid]; exact hs), by rw [hid], hi⟩

/-- An edge leads from a state to the state of its goto. -/
theorem Edge.exists_states (hA : 0 < A.productions.size) (h : (ofAugmented A).Edge q X r) :
    ∃ (j k : ℕ) (s s' : State), q = j ∧ r = k ∧ (Collection.canonical A).states[j]? = some s ∧
      (Collection.canonical A).states[k]? = some s' ∧ X ∈ A.symbolsAfterDot s.items ∧
      s'.items = A.goto s.items X := by
  obtain ⟨t, ht, rfl, rfl, rfl⟩ := h
  obtain ⟨s, s', hs, hX, hs', hgoto⟩ :=
    (Collection.sound_canonical hA).transition t (Array.mem_toList_iff.mp ht)
  exact ⟨t.source, t.target, s, s', rfl, rfl, hs, hs', hX, hgoto⟩

/-- What a number holds, read off the state in its place. -/
theorem holds_natCast_iff (hA : 0 < A.productions.size) {s : State}
    (hs : (Collection.canonical A).states[k]? = some s) :
    (ofAugmented A).Holds k i ↔ i ∈ s.items := by
  rw [holds_iff hA]
  constructor
  · rintro ⟨l, s', hl, hs', hi⟩
    obtain rfl : k = l := by exact_mod_cast hl
    obtain rfl : s = s' := Option.some.inj (hs.symm.trans hs')
    exact hi
  · exact fun hi => ⟨k, s, rfl, hs, hi⟩

/-! ### Items of a number -/

/-- A number holds items of the grammar only. -/
theorem Holds.mem_items (hA : 0 < A.productions.size) (h : (ofAugmented A).Holds q i) :
    i ∈ A.items := by
  obtain ⟨k, s, -, hs, hi⟩ := (holds_iff hA).mp h
  exact (Collection.sound_canonical hA).subset_items hA hs hi

/-- A number that holds an item holds what the item asks for. -/
theorem Holds.ask (hA : 0 < A.productions.size) (h : (ofAugmented A).Holds q i)
    (hj : j ∈ A.asksFor i) : (ofAugmented A).Holds q j := by
  obtain ⟨k, s, rfl, hs, hi⟩ := (holds_iff hA).mp h
  rw [holds_natCast_iff hA hs]
  rcases (Collection.sound_canonical hA).origin k s hs with
    ⟨-, hitems⟩ | ⟨-, s', X, -, -, -, hitems⟩
  · rw [hitems] at hi ⊢
    exact Augmented.closed_closure hi hj
  · rw [hitems] at hi ⊢
    exact Augmented.closed_closure hi hj

theorem holds_start_iff (hA : 0 < A.productions.size) :
    (ofAugmented A).Holds start i ↔ i ∈ A.closure [⟨0, 0⟩] := by
  obtain ⟨s, hs, hitems⟩ := Collection.canonical_zero hA
  rw [start, holds_natCast_iff hA hs, hitems]

/-- The start state holds the item to begin with. -/
theorem holds_start (hA : 0 < A.productions.size) : (ofAugmented A).Holds start ⟨0, 0⟩ :=
  (holds_start_iff hA).mpr (Augmented.subset_closure (by simp))

/-- **Items of the start state** have what the one to begin with has and what passes on to the
items that an item asks for. -/
theorem holds_start_induction (hA : 0 < A.productions.size) {motive : Item → Prop}
    (hfirst : motive ⟨0, 0⟩)
    (hask : ∀ i j, (ofAugmented A).Holds start i → motive i → j ∈ A.asksFor i → motive j)
    (h : (ofAugmented A).Holds start i) : motive i := by
  have hboth : ∀ j ∈ A.closure [⟨0, 0⟩], (ofAugmented A).Holds start j ∧ motive j := by
    refine Augmented.closure_induction (fun j hj => ?_) fun j k hj hk => ?_
    · obtain rfl : j = ⟨0, 0⟩ := by simpa using hj
      exact ⟨holds_start hA, hfirst⟩
    · exact ⟨hj.1.ask hA hk, hask j k hj.1 hj.2 hk⟩
  exact (hboth i ((holds_start_iff hA).mp h)).2

/-! ### Edges -/

/-- An edge leaves a number over a symbol behind the dot of an item that it holds. -/
theorem Edge.exists_holds (hA : 0 < A.productions.size) (h : (ofAugmented A).Edge q X r) :
    ∃ i, (ofAugmented A).Holds q i ∧ A.nextSymbol i = some X := by
  obtain ⟨j, k, s, s', rfl, rfl, hs, -, hX, -⟩ := h.exists_states hA
  obtain ⟨i, hi, hnext⟩ := Augmented.mem_symbolsAfterDot.mp hX
  exact ⟨i, (holds_natCast_iff hA hs).mpr hi, hnext⟩

/-- **An edge leaves a number over every symbol behind a dot.** -/
theorem Holds.exists_edge (hA : 0 < A.productions.size) (h : (ofAugmented A).Holds q i)
    (hnext : A.nextSymbol i = some X) : ∃ r, (ofAugmented A).Edge q X r := by
  obtain ⟨k, s, rfl, hs, hi⟩ := (holds_iff hA).mp h
  obtain ⟨t, ht, rfl, rfl, -⟩ :=
    Collection.exists_move hA hs (Augmented.mem_symbolsAfterDot.mpr ⟨i, hi, hnext⟩)
  exact ⟨t.target, t, Array.mem_toList_iff.mpr ht, rfl, rfl, rfl⟩

/-- **Edges over one symbol lead to one number.** -/
theorem Edge.eq (hA : 0 < A.productions.size) {r' : ℤ} (h : (ofAugmented A).Edge q X r)
    (h' : (ofAugmented A).Edge q X r') : r = r' := by
  obtain ⟨j, k, s, s', rfl, rfl, hs, hs', -, hgoto⟩ := h.exists_states hA
  obtain ⟨j', k', t, t', hj, rfl, ht, ht', -, hgoto'⟩ := h'.exists_states hA
  obtain rfl : j = j' := by exact_mod_cast hj
  obtain rfl : s = t := Option.some.inj (hs.symm.trans ht)
  have hk : k = k' := (Collection.sound_canonical hA).items_injective k k' s' t' hs' ht'
    (hgoto.trans hgoto'.symm)
  rw [hk]

/-- **An item with the dot further on was moved along the edge.** -/
theorem Edge.holds_succ (hA : 0 < A.productions.size) (h : (ofAugmented A).Edge q X r) :
    (ofAugmented A).Holds r ⟨p, d + 1⟩ ↔
      (ofAugmented A).Holds q ⟨p, d⟩ ∧ A.nextSymbol ⟨p, d⟩ = some X := by
  obtain ⟨j, k, s, s', rfl, rfl, hs, hs', -, hgoto⟩ := h.exists_states hA
  rw [holds_natCast_iff hA hs, holds_natCast_iff hA hs', hgoto]
  exact Augmented.succ_mem_goto

/-- **Items at the end of an edge** have what those that were moved along it have and what passes
on to the items that an item asks for. -/
theorem Edge.holds_induction (hA : 0 < A.productions.size) (h : (ofAugmented A).Edge q X r)
    {motive : Item → Prop}
    (hmoved : ∀ p d, (ofAugmented A).Holds q ⟨p, d⟩ → A.nextSymbol ⟨p, d⟩ = some X →
      motive ⟨p, d + 1⟩)
    (hask : ∀ i j, (ofAugmented A).Holds r i → motive i → j ∈ A.asksFor i → motive j)
    (hi : (ofAugmented A).Holds r i) : motive i := by
  obtain ⟨j, k, s, s', rfl, rfl, hs, hs', -, hgoto⟩ := h.exists_states hA
  have hboth : ∀ j ∈ A.goto s.items X, (ofAugmented A).Holds k j ∧ motive j := by
    refine Augmented.closure_induction (fun j hj => ?_) fun j l hj hl => ?_
    · obtain ⟨⟨p, d⟩, hp, hX, rfl⟩ := Augmented.mem_moved.mp hj
      have hheld := (holds_natCast_iff hA hs).mpr hp
      exact ⟨(h.holds_succ hA).mpr ⟨hheld, hX⟩, hmoved p d hheld hX⟩
    · exact ⟨hj.1.ask hA hl, hask j l hj.1 hj.2 hl⟩
  rw [holds_natCast_iff hA hs', hgoto] at hi
  exact (hboth i hi).2

end OfAugmented

end Automaton

end ShiftReduce
