import Mathlib.Data.List.Nodup
import ShiftReduce.Automaton.Basic
import ShiftReduce.Proofs.Automaton.Collection
import ShiftReduce.Proofs.Grammar.Augmented
import ShiftReduce.Proofs.Order.FirstOccurrences

/-!
# The automaton is the canonical collection

What an automaton should be is said here without its construction
(`ShiftReduce.Automaton.IsCanonical`): its states are the item sets that gotos reach from the
closure of the item to begin with, each of them once and numbered in order, and its moves are the
gotos that lead to an item set, each of them once.

The construction is a loop that visits state after state until none is left. In the library it is
given a number of rounds, so that it is a function; `ShiftReduce.Collection.Exhausts` is the loop
without that number, which may go on for as long as there are states to visit. That the automaton
of a grammar comes out of the unbounded loop and is canonical
(`ShiftReduce.Automaton.exists_isCanonical`) holds of any grammar that can be augmented. Nothing is
supposed of its symbols: one may be in both symbol sets or in none.
-/

namespace ShiftReduce

/-! ### Item sets that gotos reach -/

namespace Augmented

variable {A : Augmented} {items : List Item} {X : Symbol}

/-- **An item set that gotos reach**: the closure of the item to begin with, or the goto of such a
set over a symbol, unless that is empty. -/
inductive Reachable (A : Augmented) : List Item → Prop
  /-- The closure of the item to begin with. -/
  | first : A.Reachable (A.closure [⟨0, 0⟩])
  /-- A goto that is not empty. -/
  | goto {items : List Item} {X : Symbol} :
      A.Reachable items → A.goto items X ≠ [] → A.Reachable (A.goto items X)

/-- **A closed item set**: with the dot before a non-terminal it holds every production of that
non-terminal with the dot at the start. -/
def IsClosed (A : Augmented) (items : List Item) : Prop :=
  ∀ i ∈ items, ∀ X ∈ A.nonTerminals, A.nextSymbol i = some X →
    ∀ (k : ℕ) (p : Production), A.productions[k]? = some p → p.lhs = X → (⟨k, 0⟩ : Item) ∈ items

theorem isClosed_closure : A.IsClosed (A.closure items) := by
  intro i hi X hX hnext k p hp hlhs
  exact closed_closure hi (mem_asksFor_iff.mpr ⟨X, p, hnext, hX, rfl, hp, hlhs⟩)

theorem Reachable.isClosed (h : A.Reachable items) : A.IsClosed items := by
  cases h with
  | first => exact isClosed_closure
  | goto _ _ => exact isClosed_closure

theorem Reachable.pairwise (h : A.Reachable items) : items.Pairwise (· < ·) := by
  cases h with
  | first => exact pairwise_closure
  | goto _ _ => exact pairwise_closure

/-- An item set that gotos reach holds items of the grammar only. -/
theorem Reachable.subset_items (hA : 0 < A.productions.size) (h : A.Reachable items) :
    items ⊆ A.items := by
  induction h with
  | first =>
    refine closure_subset_items fun i hi => ?_
    obtain rfl : i = ⟨0, 0⟩ := by simpa using hi
    exact mem_items.mpr ⟨hA, Nat.zero_le _⟩
  | goto _ _ ih => exact goto_subset_items ih

/-- An item set that gotos reach holds an item. -/
theorem Reachable.ne_nil (h : A.Reachable items) : items ≠ [] := by
  cases h with
  | first => exact List.ne_nil_of_mem (subset_closure (List.mem_singleton_self _))
  | goto _ hne => exact hne

/-- **A goto leads to an item set** exactly over the symbols behind a dot. -/
theorem goto_ne_nil_iff : A.goto items X ≠ [] ↔ X ∈ A.symbolsAfterDot items := by
  rw [mem_symbolsAfterDot]
  constructor
  · intro h
    by_contra hnone
    have hmoved : A.moved items X = [] := by
      refine List.eq_nil_iff_forall_not_mem.mpr fun j hj => hnone ?_
      obtain ⟨i, hi, hX, -⟩ := mem_moved.mp hj
      exact ⟨i, hi, hX⟩
    exact h (by simp [goto, closure, hmoved, Ascending.ofList])
  · rintro ⟨i, hi, hX⟩
    exact List.ne_nil_of_mem (subset_closure (mem_moved.mpr ⟨i, hi, hX, rfl⟩))

/-- The symbols behind a dot are listed once each. -/
theorem nodup_symbolsAfterDot (A : Augmented) (items : List Item) :
    (A.symbolsAfterDot items).Nodup :=
  (firstOccurrences_eraseDups _).nodup

theorem size_pos_of_ofGrammar {g : Grammar} {settings : Settings}
    (h : ofGrammar g settings = .ok A) : 0 < A.productions.size := by
  obtain ⟨-, -, -, hprods⟩ := ofGrammar_eq_ok h
  simp [hprods]

end Augmented

namespace Collection

variable {A : Augmented} {c c' : Collection} {s s' : State} {items : List Item} {X : Symbol}
  {j k : ℕ}

/-! ### The loop without a bound -/

/-- **The loop that visits state after state**, from number `k` on, comes to an end: there is no
state of that number, or there is one, and the loop ends that goes on after the visit to it. -/
inductive Exhausts (A : Augmented) : ℕ → Collection → Collection → Prop
  /-- No state is left to visit. -/
  | done {k : ℕ} {c : Collection} : c.states[k]? = none → Exhausts A k c c
  /-- A state is visited, and the loop goes on. -/
  | visit {k : ℕ} {c c' : Collection} {s : State} : c.states[k]? = some s →
      Exhausts A (k + 1) (c.visit A s) c' → Exhausts A k c c'

/-- **The rounds suffice**: with as many of them as there may be states, the exploration ends
because no state is left to visit. -/
theorem Sound.exhausts_explore (h : Sound A c) (hA : 0 < A.productions.size) {rounds : ℕ}
    (hrounds : 2 ^ A.items.length ≤ rounds + k) :
    Exhausts A k c (Collection.explore A rounds k c) := by
  induction rounds generalizing k c with
  | zero =>
    have hsize := h.size_le hA
    exact .done (Array.getElem?_eq_none_iff.mpr (by omega))
  | succ rounds ih =>
    cases hs : c.states[k]? with
    | none =>
      simp only [Collection.explore, hs]
      exact .done hs
    | some s =>
      have hs' : c.states[s.id]? = some s := by rw [h.id_eq k s hs]; exact hs
      simp only [Collection.explore, hs]
      exact .visit hs (ih (h.visit hs').1 (by omega))

theorem exhausts_canonical (hA : 0 < A.productions.size) :
    Exhausts A 0 (initial A) (canonical A) :=
  (sound_initial A).exhausts_explore hA (Nat.le_refl _)

/-! ### States and moves of the canonical collection -/

/-- States with the same items are one state. -/
theorem Sound.eq_of_mem_iff (h : Sound A c) (hs : c.states[j]? = some s)
    (hs' : c.states[k]? = some s') (hitems : ∀ i, i ∈ s.items ↔ i ∈ s'.items) : j = k :=
  h.items_injective j k s s' hs hs' ((h.pairwise hs).eq_of_mem_iff (h.pairwise hs') hitems)

/-- A state holds an item set that gotos reach. -/
theorem Sound.reachable (h : Sound A c) (hs : c.states[k]? = some s) : A.Reachable s.items := by
  induction k using Nat.strong_induction_on generalizing s with
  | _ k ih =>
    rcases h.origin k s hs with ⟨-, hitems⟩ | ⟨j, s', X, hj, hs', hX, hitems⟩
    · rw [hitems]
      exact .first
    · rw [hitems]
      exact .goto (ih j hj hs') (Augmented.goto_ne_nil_iff.mpr hX)

/-- **The states hold the item sets that gotos reach**, all of them. -/
theorem exists_state_of_reachable (hA : 0 < A.productions.size) (h : A.Reachable items) :
    ∃ (k : ℕ) (s : State), (canonical A).states[k]? = some s ∧ s.items = items := by
  induction h with
  | first =>
    obtain ⟨s, hs, hitems⟩ := canonical_zero hA
    exact ⟨0, s, hs, hitems⟩
  | goto _ hne ih =>
    obtain ⟨k, s, hs, rfl⟩ := ih
    obtain ⟨t, -, -, -, s', hs', hgoto⟩ := exists_move hA hs (Augmented.goto_ne_nil_iff.mp hne)
    exact ⟨t.target, s', hs', hgoto⟩

/-- **The moves are the gotos** that lead to an item set. -/
theorem mem_transitions_iff (hA : 0 < A.productions.size) {t : Transition} :
    t ∈ (canonical A).transitions ↔ ∃ s s' : State, (canonical A).states[t.source]? = some s ∧
      (canonical A).states[t.target]? = some s' ∧ A.goto s.items t.symbol ≠ [] ∧
      A.goto s.items t.symbol = s'.items := by
  have hsound := sound_canonical hA
  constructor
  · intro ht
    obtain ⟨s, s', hs, hX, hs', hgoto⟩ := hsound.transition t ht
    exact ⟨s, s', hs, hs', Augmented.goto_ne_nil_iff.mpr hX, hgoto.symm⟩
  · rintro ⟨s, s', hs, hs', hne, hgoto⟩
    obtain ⟨t', ht', hsource, hsymbol, s'', hs'', hgoto'⟩ :=
      exists_move hA hs (Augmented.goto_ne_nil_iff.mp hne)
    -- the move that is there leads to the same items, so it is the same move
    have htarget : t'.target = t.target :=
      hsound.items_injective _ _ _ _ hs'' hs' (hgoto'.trans hgoto)
    have heq : t' = t := by
      cases t
      cases t'
      simp_all
    exact heq ▸ ht'

/-- **No state has two moves over one symbol.** -/
theorem nodup_keys (hA : 0 < A.productions.size) : (canonical A).keys.Nodup := by
  have hsound := sound_canonical hA
  rw [visited_canonical hA, List.nodup_flatMap]
  constructor
  · intro s _
    exact (A.nodup_symbolsAfterDot s.items).map fun X Y h => (Prod.mk.inj h).2
  · refine List.pairwise_iff_getElem.mpr fun j k hj hk hlt key hkey hkey' => ?_
    obtain ⟨X, -, rfl⟩ := List.mem_map.mp hkey
    obtain ⟨Y, -, heq⟩ := List.mem_map.mp hkey'
    have hids : ∀ l (hl : l < (canonical A).states.toList.length),
        (canonical A).states.toList[l].id = l := fun l hl =>
      hsound.id_eq l _ (by rw [← Array.getElem?_toList, List.getElem?_eq_getElem hl])
    have hid := (Prod.mk.inj heq).1
    rw [hids j hj, hids k hk] at hid
    omega

end Collection

/-! ### What an automaton should be -/

namespace Automaton

/-- **A canonical automaton**: its states are the item sets that gotos reach, and its moves are the
gotos between them, with nothing lost and nothing there twice. -/
structure IsCanonical (m : Automaton) : Prop where
  /-- The states are numbered from zero, in order. -/
  ids : m.states.map (·.id) = List.range m.states.length
  /-- No two states hold the same items. -/
  distinct : m.states.Pairwise fun s s' => ¬∀ i, i ∈ s.items ↔ i ∈ s'.items
  /-- The states hold the item sets that gotos reach, and no others. -/
  reachable : ∀ items, (∃ s ∈ m.states, s.items = items) ↔ m.grammar.Reachable items
  /-- Every state is closed. -/
  closed : ∀ s ∈ m.states, m.grammar.IsClosed s.items
  /-- The items of a state ascend strictly. -/
  ascending : ∀ s ∈ m.states, s.items.Pairwise (· < ·)
  /-- An item of a state has a production, and its dot stands no further than at the end. -/
  dot_le : ∀ s ∈ m.states, ∀ i ∈ s.items, ∃ p, m.grammar.productions[i.production]? = some p ∧
    i.dot ≤ p.rhs.length
  /-- No state has two moves over one symbol. -/
  nodup_moves : (m.transitions.map fun t => (t.source, t.symbol)).Nodup
  /-- The moves are the gotos that are not empty. -/
  mem_moves : ∀ t, t ∈ m.transitions ↔ ∃ s s' : State, m.states[t.source]? = some s ∧
    m.states[t.target]? = some s' ∧ m.grammar.goto s.items t.symbol ≠ [] ∧
    m.grammar.goto s.items t.symbol = s'.items

variable {A : Augmented}

theorem getElem?_states (k : ℕ) :
    (ofAugmented A).states[k]? = (Collection.canonical A).states[k]? :=
  Array.getElem?_toList

theorem isCanonical_ofAugmented (hA : 0 < A.productions.size) : (ofAugmented A).IsCanonical := by
  have hsound := Collection.sound_canonical hA
  have hplace : ∀ s ∈ (ofAugmented A).states,
      ∃ k : ℕ, (Collection.canonical A).states[k]? = some s := by
    intro s hs
    obtain ⟨k, hk⟩ := List.mem_iff_getElem?.mp hs
    exact ⟨k, by rw [← getElem?_states, hk]⟩
  have hreachable : ∀ s ∈ (ofAugmented A).states, A.Reachable s.items := by
    intro s hs
    obtain ⟨k, hk⟩ := hplace s hs
    exact hsound.reachable hk
  constructor
  · refine List.ext_getElem? fun k => ?_
    rw [List.getElem?_map, getElem?_states]
    by_cases hk : k < (ofAugmented A).states.length
    · obtain ⟨s, hs⟩ : ∃ s, (Collection.canonical A).states[k]? = some s :=
        ⟨_, by rw [← getElem?_states, List.getElem?_eq_getElem hk]⟩
      rw [hs, Option.map_some, hsound.id_eq k s hs, List.getElem?_range hk]
    · rw [← getElem?_states, List.getElem?_eq_none (Nat.le_of_not_lt hk),
        List.getElem?_eq_none (by simpa using hk), Option.map_none]
  · refine List.pairwise_iff_getElem.mpr fun j k hj hk hlt hitems => ?_
    have hs := (getElem?_states (A := A) j).symm.trans (List.getElem?_eq_getElem hj)
    have hs' := (getElem?_states (A := A) k).symm.trans (List.getElem?_eq_getElem hk)
    exact absurd (hsound.eq_of_mem_iff hs hs' hitems) (Nat.ne_of_lt hlt)
  · intro items
    constructor
    · rintro ⟨s, hs, rfl⟩
      exact hreachable s hs
    · intro h
      obtain ⟨k, s, hs, hitems⟩ := Collection.exists_state_of_reachable hA h
      rw [← getElem?_states] at hs
      exact ⟨s, List.mem_of_getElem? hs, hitems⟩
  · exact fun s hs => (hreachable s hs).isClosed
  · exact fun s hs => (hreachable s hs).pairwise
  · intro s hs i hi
    obtain ⟨hlt, hdot⟩ := Augmented.mem_items.mp ((hreachable s hs).subset_items hA hi)
    have hp := Array.getElem?_eq_getElem hlt
    rw [Augmented.rhs_eq hp] at hdot
    exact ⟨_, hp, hdot⟩
  · exact Collection.nodup_keys hA
  · intro t
    simp only [getElem?_states]
    exact Array.mem_toList_iff.trans (Collection.mem_transitions_iff hA)

/-- A list that goes through numbered things in turn has in one piece what belongs to one of them.
-/
theorem filter_flatMap_of_nodup {α β : Type} {l : List α} {f : α → List β} {number : α → ℕ}
    {source : β → ℕ} (hnodup : (l.map number).Nodup)
    (hf : ∀ a ∈ l, ∀ b ∈ f a, source b = number a) {a : α} (ha : a ∈ l) :
    (l.flatMap f).filter (source · = number a) = f a := by
  induction l with
  | nil => exact absurd ha List.not_mem_nil
  | cons b l ih =>
    obtain ⟨hb, hl⟩ := List.nodup_cons.mp hnodup
    have hrest := ih hl fun a' ha' => hf a' (List.mem_cons_of_mem _ ha')
    rw [List.flatMap_cons, List.filter_append]
    rcases List.mem_cons.mp ha with rfl | ha
    · have hself : (f a).filter (source · = number a) = f a :=
        List.filter_eq_self.mpr fun x hx => by simpa using hf a List.mem_cons_self x hx
      have hnone : (l.flatMap f).filter (source · = number a) = [] := by
        refine List.filter_eq_nil_iff.mpr fun x hx he => hb ?_
        obtain ⟨a', ha', hx⟩ := List.mem_flatMap.mp hx
        rw [← of_decide_eq_true he, hf a' (List.mem_cons_of_mem _ ha') x hx]
        exact List.mem_map_of_mem ha'
      rw [hself, hnone, List.append_nil]
    · have hnone : (f b).filter (source · = number a) = [] := by
        refine List.filter_eq_nil_iff.mpr fun x hx he => hb ?_
        rw [← hf b List.mem_cons_self x hx, of_decide_eq_true he]
        exact List.mem_map_of_mem ha
      rw [hnone, hrest ha, List.nil_append]

/-- No two states have one number. -/
theorem nodup_map_id (hA : 0 < A.productions.size) :
    ((ofAugmented A).states.map (·.id)).Nodup := by
  rw [(isCanonical_ofAugmented hA).ids]
  exact List.nodup_range

/-- Every state holds an item. -/
theorem items_ne_nil (hA : 0 < A.productions.size) {s : State} (hs : s ∈ (ofAugmented A).states) :
    s.items ≠ [] :=
  (((isCanonical_ofAugmented hA).reachable s.items).mp ⟨s, hs, rfl⟩).ne_nil

/-- **A state accepts if it holds the item of a finished input.** -/
theorem mem_accepting_iff (hA : 0 < A.productions.size) {s : State}
    (hs : s ∈ (ofAugmented A).states) :
    s.id ∈ (ofAugmented A).accepting ↔ acceptItem ∈ s.items := by
  simp only [accepting, List.mem_map, List.mem_filter, decide_eq_true_eq]
  constructor
  · rintro ⟨s', ⟨hs', hitem⟩, hid⟩
    rwa [← List.inj_on_of_nodup_map (nodup_map_id hA) hs' hs hid]
  · exact fun hitem => ⟨s, ⟨hs, hitem⟩, rfl⟩

@[simp] theorem grammar_ofAugmented (A : Augmented) : (ofAugmented A).grammar = A := rfl

/-- The automaton of a grammar is that of its augmented grammar. -/
theorem exists_ofAugmented {g : Grammar} {settings : Settings} {a : Automaton}
    (ha : ofGrammar g settings = .ok a) :
    ∃ A, Augmented.ofGrammar g settings = .ok A ∧ a = ofAugmented A := by
  unfold ofGrammar at ha
  cases hA : Augmented.ofGrammar g settings with
  | error problems =>
    rw [hA] at ha
    exact absurd ha (by simp [Except.map])
  | ok A =>
    rw [hA] at ha
    exact ⟨A, rfl, (Except.ok.inj ha).symm⟩

/-- **The automaton is the canonical collection.** For any grammar that can be augmented, the loop
that visits state after state comes to an end, its states and moves are the automaton of the
grammar, and that automaton is canonical. -/
theorem exists_isCanonical {g : Grammar} {settings : Settings}
    (h : Augmented.ofGrammar g settings = .ok A) :
    ∃ c, Collection.Exhausts A 0 (Collection.initial A) c ∧
      ofGrammar g settings = .ok ⟨A, c.states.toList, c.transitions.toList, start⟩ ∧
      (⟨A, c.states.toList, c.transitions.toList, start⟩ : Automaton).IsCanonical := by
  have hA := Augmented.size_pos_of_ofGrammar h
  refine ⟨Collection.canonical A, Collection.exhausts_canonical hA, ?_, isCanonical_ofAugmented hA⟩
  rw [ofGrammar, h]
  rfl

/-- A grammar put together by hand: its start symbol is in both symbol sets, and `b` is in none. -/
def looseGrammar : Grammar where
  start := "S"
  nonTerminals := .ofList ["S"]
  terminals := .ofList ["S", "a"]
  productions := [⟨7, "S", ["a", "S", "b"], "S -> a S b"⟩, ⟨7, "S", [], "S -> ε"⟩]

theorem exists_isCanonical_loose :
    ∃ a, ofGrammar looseGrammar {} = .ok a ∧ a.IsCanonical ∧ a.states.length = 5 ∧
      a.transitions = [⟨0, "S", 1⟩, ⟨0, "a", 2⟩, ⟨2, "a", 2⟩, ⟨2, "S", 3⟩, ⟨3, "b", 4⟩] := by
  obtain ⟨A, hA⟩ : ∃ A, Augmented.ofGrammar looseGrammar {} = .ok A := ⟨_, rfl⟩
  obtain ⟨c, -, ha, hcanonical⟩ := exists_isCanonical hA
  have hcheck : (ofGrammar looseGrammar {}).toOption.map
      (fun a => (a.states.length, a.transitions)) =
        some (5, [⟨0, "S", 1⟩, ⟨0, "a", 2⟩, ⟨2, "a", 2⟩, ⟨2, "S", 3⟩, ⟨3, "b", 4⟩]) := by
    decide +kernel
  rw [ha] at hcheck
  obtain ⟨hlength, htransitions⟩ := Prod.mk.inj (Option.some.inj hcheck)
  exact ⟨_, ha, hcanonical, hlength, htransitions⟩

/-! ### The automaton of a grammar that was built from rows -/

variable {rows : List Row} {g : Grammar}

/-- A grammar that was built from rows has an automaton. -/
theorem exists_ofGrammar (hg : Grammar.ofRows rows = .ok g) (settings : Settings) :
    ∃ a, ofGrammar g settings = .ok a := by
  obtain ⟨A, hA⟩ := Augmented.exists_ofGrammar (Grammar.wellFormed_of_ofRows hg) settings
  exact ⟨ofAugmented A, by rw [ofGrammar, hA]; rfl⟩

/-- The automaton of a grammar that was built from rows is that of an augmented grammar that goes
with it, and its start symbol is fresh. -/
theorem exists_augments {settings : Settings} {a : Automaton} (hg : Grammar.ofRows rows = .ok g)
    (ha : ofGrammar g settings = .ok a) :
    ∃ A, a = ofAugmented A ∧ A.Augments g ∧ A.IsFresh g := by
  obtain ⟨A, hA, rfl⟩ := exists_ofAugmented ha
  exact ⟨A, rfl, Augmented.augments_of_ofGrammar (Grammar.wellFormed_of_ofRows hg) hA,
    Augmented.isFresh_of_ofGrammar hA⟩

theorem ofGrammar_brackets : ofGrammar .brackets {} = .ok (ofAugmented .brackets) := by
  rw [ofGrammar, Augmented.ofGrammar_brackets]
  rfl

end Automaton

end ShiftReduce
