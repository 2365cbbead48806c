import Mathlib.Data.Finset.Card
import Mathlib.Data.Finset.Powerset
import ShiftReduce.Automaton.Collection
import ShiftReduce.Proofs.Item.Closure

/-!
# The canonical collection is built completely

A collection grows in two ways only: items are registered, and a move between two states is
recorded. `ShiftReduce.Collection.Sound` is what both keep: states are numbered by their place and
differ in their items, every state but the first is the goto of an earlier one, and every move
leads from a state to the state of its goto.

That no goto is *missing* is a statement about the order of the work. After the states below `k`
have been visited, the moves recorded are exactly those over the symbols behind a dot of these
states, state by state (`ShiftReduce.Collection.Visited`). The exploration is given a number of
rounds, and since there are no more states than sets of items
(`ShiftReduce.Collection.Sound.size_le`), it has visited every state before the rounds run out.
So the canonical collection is sound and has all of its states visited
(`ShiftReduce.Collection.sound_canonical`, `ShiftReduce.Collection.visited_canonical`).
-/

namespace ShiftReduce

namespace Collection

variable {A : Augmented} {c c' : Collection} {s s' : State} {items : List Item} {X : Symbol}
  {j k : ℕ}

/-! ### What every collection keeps -/

/-- The states of one collection are the first states of the other. -/
def Extends (c c' : Collection) : Prop :=
  c.states.toList <+: c'.states.toList

/-- A set of items that an exploration comes upon: the closure to begin with, or the goto of the
items of an earlier state over a symbol behind one of their dots. -/
def IsOrigin (A : Augmented) (c : Collection) (k : ℕ) (items : List Item) : Prop :=
  (k = 0 ∧ items = A.closure [⟨0, 0⟩]) ∨
    ∃ (j : ℕ) (s : State) (X : Symbol), j < k ∧ c.states[j]? = some s ∧
      X ∈ A.symbolsAfterDot s.items ∧ items = A.goto s.items X

/-- **A sound collection**: its states and moves are what they should be, as far as it goes. -/
structure Sound (A : Augmented) (c : Collection) : Prop where
  /-- A state is numbered by its place. -/
  id_eq : ∀ (k : ℕ) (s : State), c.states[k]? = some s → s.id = k
  /-- A state carries the signature of its items. -/
  signature_eq : ∀ (k : ℕ) (s : State), c.states[k]? = some s → s.signature = Item.signature s.items
  /-- A state holds the items that the exploration came upon. -/
  origin : ∀ (k : ℕ) (s : State), c.states[k]? = some s → IsOrigin A c k s.items
  /-- Different states hold different items. -/
  items_injective : ∀ (j k : ℕ) (s s' : State), c.states[j]? = some s → c.states[k]? = some s' →
    s.items = s'.items → j = k
  /-- A move leads over a symbol behind a dot of a state to the state of the goto. -/
  transition : ∀ t ∈ c.transitions, ∃ s s' : State, c.states[t.source]? = some s ∧
    t.symbol ∈ A.symbolsAfterDot s.items ∧ c.states[t.target]? = some s' ∧
    s'.items = A.goto s.items t.symbol

theorem Extends.refl (c : Collection) : Extends c c :=
  List.prefix_refl _

theorem Extends.trans {c'' : Collection} (h : Extends c c') (h' : Extends c' c'') :
    Extends c c'' :=
  List.IsPrefix.trans h h'

theorem Extends.getElem? (h : Extends c c') (hs : c.states[k]? = some s) :
    c'.states[k]? = some s := by
  obtain ⟨more, hmore⟩ := h
  rw [← Array.getElem?_toList] at hs ⊢
  rw [← hmore, List.getElem?_append_left (List.getElem?_eq_some_iff.mp hs).1, hs]

theorem IsOrigin.mono (h : Extends c c') (ho : IsOrigin A c k items) : IsOrigin A c' k items := by
  rcases ho with hfirst | ⟨j, s, X, hj, hs, hX, hitems⟩
  · exact Or.inl hfirst
  · exact Or.inr ⟨j, s, X, hj, h.getElem? hs, hX, hitems⟩

theorem IsOrigin.pairwise (ho : IsOrigin A c k items) : items.Pairwise (· < ·) := by
  rcases ho with ⟨-, rfl⟩ | ⟨-, s, X, -, -, -, rfl⟩
  · exact Augmented.pairwise_closure
  · exact Augmented.pairwise_closure

/-- The items of a state are in ascending order. -/
theorem Sound.pairwise (h : Sound A c) (hs : c.states[k]? = some s) :
    s.items.Pairwise (· < ·) :=
  (h.origin k s hs).pairwise

/-- The items of a state are items of the grammar. -/
theorem Sound.subset_items (h : Sound A c) (hA : 0 < A.productions.size)
    (hs : c.states[k]? = some s) : s.items ⊆ A.items := by
  induction k using Nat.strong_induction_on generalizing s with
  | _ k ih =>
    rcases h.origin k s hs with ⟨-, hitems⟩ | ⟨j, s', X, hj, hs', -, hitems⟩
    · rw [hitems]
      refine Augmented.closure_subset_items fun i hi => ?_
      obtain rfl : i = ⟨0, 0⟩ := by simpa using hi
      exact Augmented.mem_items.mpr ⟨hA, Nat.zero_le _⟩
    · rw [hitems]
      exact Augmented.goto_subset_items (ih j hj hs')

/-- **There are no more states than sets of items of the grammar.** -/
theorem Sound.size_le (h : Sound A c) (hA : 0 < A.productions.size) :
    c.states.size ≤ 2 ^ A.items.length := by
  let itemsOf : ℕ → Finset Item := fun k => ((c.states[k]?).map (·.items.toFinset)).getD ∅
  have hitems : ∀ k (hk : k < c.states.size), itemsOf k = c.states[k].items.toFinset := by
    intro k hk
    simp [itemsOf, hk]
  have hmaps : ∀ k ∈ Finset.range c.states.size, itemsOf k ∈ A.items.toFinset.powerset := by
    intro k hk
    have hk' := Finset.mem_range.mp hk
    rw [hitems k hk', Finset.mem_powerset]
    intro i hi
    rw [List.mem_toFinset] at hi ⊢
    exact h.subset_items hA (Array.getElem?_eq_getElem hk') hi
  have hinj : Set.InjOn itemsOf (Finset.range c.states.size) := by
    intro j hj k hk he
    have hj' := Finset.mem_range.mp hj
    have hk' := Finset.mem_range.mp hk
    have hjs := Array.getElem?_eq_getElem hj'
    have hks := Array.getElem?_eq_getElem hk'
    rw [hitems j hj', hitems k hk'] at he
    refine h.items_injective j k _ _ hjs hks ((h.pairwise hjs).eq_of_mem_iff (h.pairwise hks) ?_)
    intro i
    rw [← List.mem_toFinset, he, List.mem_toFinset]
  calc c.states.size = (Finset.range c.states.size).card := (Finset.card_range _).symm
    _ ≤ A.items.toFinset.powerset.card := Finset.card_le_card_of_injOn itemsOf hmaps hinj
    _ = 2 ^ A.items.toFinset.card := Finset.card_powerset _
    _ ≤ 2 ^ A.items.length := Nat.pow_le_pow_right (by omega) (List.toFinset_card_le _)

/-! ### Registering items -/

/-- **Registering finds the state of the items or makes it.** -/
theorem Sound.register_cases (h : Sound A c) (hitems : items.Pairwise (· < ·)) :
    (∃ s, c.register items = (c, s) ∧ c.states[s.id]? = some s ∧ s.items = items) ∨
      (c.register items = ({ c with states := c.states.push (c.nextState items) },
          c.nextState items) ∧ ∀ (k : ℕ) (s : State), c.states[k]? = some s → s.items ≠ items) := by
  unfold register
  cases hfind : c.find? items with
  | some s =>
    obtain ⟨hsig, k, hk, hs, -⟩ := Array.find?_eq_some_iff_getElem.mp hfind
    have hs' : c.states[k]? = some s := by rw [Array.getElem?_eq_getElem hk, hs]
    have hid := h.id_eq k s hs'
    have hsig' : Item.signature s.items = Item.signature items := by
      rw [← h.signature_eq k s hs']
      simpa using hsig
    exact Or.inl ⟨s, rfl, by rw [hid]; exact hs',
      Item.eq_of_signature_eq (h.pairwise hs') hitems hsig'⟩
  | none =>
    refine Or.inr ⟨rfl, fun k s hs he => ?_⟩
    have hnot := Array.find?_eq_none.mp hfind s (Array.mem_of_getElem? hs)
    rw [h.signature_eq k s hs, he] at hnot
    simp at hnot

/-- **Registering keeps a collection sound**, if the items are ones that the exploration may come
upon next. -/
theorem Sound.push (h : Sound A c) (horigin : IsOrigin A c c.states.size items)
    (hnew : ∀ (k : ℕ) (s : State), c.states[k]? = some s → s.items ≠ items) :
    Sound A { c with states := c.states.push (c.nextState items) } := by
  let c' : Collection := { c with states := c.states.push (c.nextState items) }
  have hext : Extends c c' := ⟨[c.nextState items], by simp [c']⟩
  -- a state of the new collection is one of the old one or the new one
  have hcases : ∀ k s, c'.states[k]? = some s → c.states[k]? = some s ∨
      (k = c.states.size ∧ s = c.nextState items) := by
    intro k s hs
    rw [Array.getElem?_push] at hs
    split at hs
    · next hk => exact Or.inr ⟨hk, (Option.some.inj hs).symm⟩
    · exact Or.inl hs
  constructor
  · intro k s hs
    rcases hcases k s hs with hs | ⟨rfl, rfl⟩
    · exact h.id_eq k s hs
    · rfl
  · intro k s hs
    rcases hcases k s hs with hs | ⟨rfl, rfl⟩
    · exact h.signature_eq k s hs
    · rfl
  · intro k s hs
    rcases hcases k s hs with hs | ⟨rfl, rfl⟩
    · exact (h.origin k s hs).mono hext
    · exact horigin.mono hext
  · intro j k s s' hs hs' he
    rcases hcases j s hs with hs | ⟨rfl, rfl⟩ <;> rcases hcases k s' hs' with hs' | ⟨rfl, rfl⟩
    · exact h.items_injective j k s s' hs hs' he
    · exact absurd he (hnew j s hs)
    · exact absurd he.symm (hnew k s' hs')
    · rfl
  · intro t ht
    obtain ⟨s, s', hs, hX, hs', hgoto⟩ := h.transition t ht
    exact ⟨s, s', hext.getElem? hs, hX, hext.getElem? hs', hgoto⟩

/-- **Recording a move keeps a collection sound**, if it leads to the state of the goto. -/
theorem Sound.connect (h : Sound A c) (hs : c.states[j]? = some s)
    (hX : X ∈ A.symbolsAfterDot s.items) (hs' : c.states[k]? = some s')
    (hgoto : s'.items = A.goto s.items X) : Sound A (c.connect ⟨j, X, k⟩) := by
  refine ⟨h.id_eq, h.signature_eq, h.origin, h.items_injective, fun t ht => ?_⟩
  rcases Array.mem_push.mp ht with ht | rfl
  · exact h.transition t ht
  · exact ⟨s, s', hs, hX, hs', hgoto⟩

/-! ### Visiting a state -/

/-- The moves recorded, each by the number of the state it leaves and its symbol. -/
def keys (c : Collection) : List (ℕ × Symbol) :=
  c.transitions.toList.map fun t => (t.source, t.symbol)

/-- The moves that should leave a state. -/
def stateKeys (A : Augmented) (s : State) : List (ℕ × Symbol) :=
  (A.symbolsAfterDot s.items).map fun X => (s.id, X)

theorem keys_connect (c : Collection) (t : Transition) :
    (c.connect t).keys = c.keys ++ [(t.source, t.symbol)] := by
  simp [keys, connect]

/-- **One goto of a state** leads to the state that is there or to the next one. -/
theorem Sound.move_cases (h : Sound A c) (s : State) (X : Symbol) :
    (∃ s' : State, Collection.move A s c X = c.connect ⟨s.id, X, s'.id⟩ ∧
        c.states[s'.id]? = some s' ∧ s'.items = A.goto s.items X) ∨
      (Collection.move A s c X =
          Collection.connect { c with states := c.states.push (c.nextState (A.goto s.items X)) }
            ⟨s.id, X, c.states.size⟩ ∧
        ∀ (k : ℕ) (s' : State), c.states[k]? = some s' → s'.items ≠ A.goto s.items X) := by
  have hpair : (A.goto s.items X).Pairwise (· < ·) := Augmented.pairwise_closure
  rcases h.register_cases hpair with ⟨s', hreg, hs', hgoto⟩ | ⟨hreg, hnew⟩
  · exact Or.inl ⟨s', by simp only [Collection.move, hreg], hs', hgoto⟩
  · refine Or.inr ⟨?_, hnew⟩
    simp only [Collection.move, hreg]
    rfl

/-- **One goto of a state**: the collection stays sound, keeps its states, and has one move
more. -/
theorem Sound.move (h : Sound A c) (hs : c.states[s.id]? = some s)
    (hX : X ∈ A.symbolsAfterDot s.items) :
    Sound A (move A s c X) ∧ Extends c (move A s c X) ∧
      (move A s c X).keys = c.keys ++ [(s.id, X)] := by
  have hlt : s.id < c.states.size := (Array.getElem?_eq_some_iff.mp hs).1
  rcases h.move_cases s X with ⟨s', hmove, hs', hgoto⟩ | ⟨hmove, hnew⟩
  · rw [hmove]
    exact ⟨h.connect hs hX hs' hgoto, Extends.refl c, keys_connect c _⟩
  · let c' : Collection := { c with states := c.states.push (c.nextState (A.goto s.items X)) }
    have hext : Extends c c' := ⟨[c.nextState (A.goto s.items X)], by simp [c']⟩
    have hsound : Sound A c' := h.push (Or.inr ⟨s.id, s, X, hlt, hs, hX, rfl⟩) hnew
    have hlast : c'.states[c.states.size]? = some (c.nextState (A.goto s.items X)) := by simp [c']
    rw [hmove]
    exact ⟨hsound.connect (hext.getElem? hs) hX hlast rfl, hext, keys_connect c' _⟩

/-- Some gotos of a state, one after the other. -/
theorem Sound.foldl_move (h : Sound A c) (hs : c.states[s.id]? = some s) {Xs : List Symbol}
    (hXs : ∀ X ∈ Xs, X ∈ A.symbolsAfterDot s.items) :
    Sound A (Xs.foldl (Collection.move A s) c) ∧ Extends c (Xs.foldl (Collection.move A s) c) ∧
      (Xs.foldl (Collection.move A s) c).keys = c.keys ++ Xs.map fun X => (s.id, X) := by
  induction Xs generalizing c with
  | nil => exact ⟨h, Extends.refl c, by simp⟩
  | cons X Xs ih =>
    obtain ⟨hsound, hext, hkeys⟩ := h.move hs (hXs X (by simp))
    obtain ⟨hsound', hext', hkeys'⟩ :=
      ih hsound (hext.getElem? hs) fun Y hY => hXs Y (by simp [hY])
    refine ⟨hsound', hext.trans hext', ?_⟩
    rw [List.foldl_cons, hkeys', hkeys]
    simp

/-- **A visit to a state**: the collection stays sound, keeps its states, and has all the moves
that should leave the state, in order. -/
theorem Sound.visit (h : Sound A c) (hs : c.states[s.id]? = some s) :
    Sound A (c.visit A s) ∧ Extends c (c.visit A s) ∧
      (c.visit A s).keys = c.keys ++ stateKeys A s :=
  h.foldl_move hs fun _ hX => hX

/-! ### The exploration -/

/-- The states below `k` have been visited, and no others: the moves recorded are those that
should leave these states, in order. -/
def Visited (A : Augmented) (c : Collection) (k : ℕ) : Prop :=
  c.keys = (c.states.toList.take k).flatMap (stateKeys A)

/-- The states below `k + 1` have been visited once state `k` is, too. -/
theorem Visited.visit (h : Sound A c) (hv : Visited A c k) (hs : c.states[k]? = some s) :
    Visited A (c.visit A s) (k + 1) := by
  have hs' : c.states[s.id]? = some s := by rw [h.id_eq k s hs]; exact hs
  obtain ⟨-, ⟨more, hmore⟩, hkeys⟩ := h.visit hs'
  rw [← Array.getElem?_toList] at hs
  have hk : k + 1 ≤ c.states.toList.length := (List.getElem?_eq_some_iff.mp hs).1
  rw [Visited, hkeys, hv, ← hmore, List.take_append_of_le_length hk, List.take_add_one, hs]
  simp

/-- With no state left to visit, the states below `k` are all states. -/
theorem Visited.of_size_le (hv : Visited A c k) (hk : c.states.size ≤ k) :
    Visited A c c.states.size := by
  have htake : c.states.toList.take k = c.states.toList.take c.states.size := by
    rw [List.take_of_length_le (by simpa using hk), List.take_of_length_le (by simp)]
  rw [Visited, ← htake]
  exact hv

/-- **The exploration visits every state**, if it is given as many rounds as there may be
states. -/
theorem Sound.explore (h : Sound A c) (hA : 0 < A.productions.size) {rounds : ℕ}
    (hv : Visited A c k) (hrounds : 2 ^ A.items.length ≤ rounds + k) :
    Sound A (explore A rounds k c) ∧ Extends c (explore A rounds k c) ∧
      Visited A (explore A rounds k c) (explore A rounds k c).states.size := by
  induction rounds generalizing k c with
  | zero =>
    have hsize := h.size_le hA
    exact ⟨h, Extends.refl c, hv.of_size_le (by omega)⟩
  | succ rounds ih =>
    cases hs : c.states[k]? with
    | none =>
      simp only [Collection.explore, hs]
      exact ⟨h, Extends.refl c, hv.of_size_le (Array.getElem?_eq_none_iff.mp hs)⟩
    | some s =>
      have hs' : c.states[s.id]? = some s := by rw [h.id_eq k s hs]; exact hs
      obtain ⟨hsound, hext, -⟩ := h.visit hs'
      simp only [Collection.explore, hs]
      obtain ⟨hsound', hext', hv'⟩ := ih hsound (hv.visit h hs) (by omega)
      exact ⟨hsound', hext.trans hext', hv'⟩

/-! ### The canonical collection -/

/-- The collection that an exploration starts from. -/
def initial (A : Augmented) : Collection :=
  (({} : Collection).register (A.closure [⟨0, 0⟩])).1

theorem initial_eq (A : Augmented) :
    initial A = { states := #[⟨0, A.closure [⟨0, 0⟩], Item.signature (A.closure [⟨0, 0⟩])⟩] } :=
  rfl

theorem sound_initial (A : Augmented) : Sound A (initial A) := by
  have hcases : ∀ k s, (initial A).states[k]? = some s →
      k = 0 ∧ s = ⟨0, A.closure [⟨0, 0⟩], Item.signature (A.closure [⟨0, 0⟩])⟩ := by
    intro k s hs
    rw [initial_eq] at hs
    cases k with
    | zero => exact ⟨rfl, (Option.some.inj hs).symm⟩
    | succ k => simp at hs
  constructor
  · intro k s hs
    obtain ⟨rfl, rfl⟩ := hcases k s hs
    rfl
  · intro k s hs
    obtain ⟨rfl, rfl⟩ := hcases k s hs
    rfl
  · intro k s hs
    obtain ⟨rfl, rfl⟩ := hcases k s hs
    exact Or.inl ⟨rfl, rfl⟩
  · intro j k s s' hs hs' _
    rw [(hcases j s hs).1, (hcases k s' hs').1]
  · intro t ht
    rw [initial_eq] at ht
    simp at ht

theorem explore_canonical (hA : 0 < A.productions.size) :
    Sound A (canonical A) ∧ Extends (initial A) (canonical A) ∧
      Visited A (canonical A) (canonical A).states.size :=
  (sound_initial A).explore hA (by simp [Visited, keys, initial_eq]) (Nat.le_refl _)

/-- **The canonical collection is sound.** -/
theorem sound_canonical (hA : 0 < A.productions.size) : Sound A (canonical A) :=
  (explore_canonical hA).1

/-- **In the canonical collection every state has been visited.** -/
theorem visited_canonical (hA : 0 < A.productions.size) :
    (canonical A).keys = (canonical A).states.toList.flatMap (stateKeys A) := by
  have hv := (explore_canonical hA).2.2
  rw [Visited, List.take_of_length_le (by simp)] at hv
  exact hv

/-- The first state of the canonical collection holds the closure to begin with. -/
theorem canonical_zero (hA : 0 < A.productions.size) :
    ∃ s, (canonical A).states[0]? = some s ∧ s.items = A.closure [⟨0, 0⟩] := by
  have hext := (explore_canonical hA).2.1
  exact ⟨_, hext.getElem? (k := 0) rfl, rfl⟩

/-- **A move leaves every state over every symbol behind a dot**, and leads to the goto. -/
theorem exists_move (hA : 0 < A.productions.size) (hs : (canonical A).states[k]? = some s)
    (hX : X ∈ A.symbolsAfterDot s.items) :
    ∃ t ∈ (canonical A).transitions, t.source = k ∧ t.symbol = X ∧
      ∃ s', (canonical A).states[t.target]? = some s' ∧ s'.items = A.goto s.items X := by
  have hsound := sound_canonical hA
  have hkey : (k, X) ∈ (canonical A).keys := by
    rw [visited_canonical hA, List.mem_flatMap]
    have hs' := hs
    rw [← Array.getElem?_toList] at hs'
    exact ⟨s, List.mem_of_getElem? hs', List.mem_map.mpr ⟨X, hX, by rw [hsound.id_eq k s hs]⟩⟩
  obtain ⟨t, ht, hkt⟩ := List.mem_map.mp hkey
  obtain ⟨rfl, rfl⟩ := Prod.mk.inj hkt
  obtain ⟨s₀, s', hs₀, -, hs', hgoto⟩ := hsound.transition t (Array.mem_toList_iff.mp ht)
  obtain rfl : s = s₀ := Option.some.inj (hs.symm.trans hs₀)
  exact ⟨t, Array.mem_toList_iff.mp ht, rfl, rfl, s', hs', hgoto⟩

end Collection

end ShiftReduce
