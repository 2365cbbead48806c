import Mathlib.Data.List.Basic
import ShiftReduce.Proofs.Automaton.Canonical
import ShiftReduce.Proofs.Automaton.Edge

/-!
# What the automaton knows after a word

An automaton reads a word of symbols of both kinds by following its moves from the start state
(`ShiftReduce.Automaton.follow?`). This file says what the state holds that it comes to, in terms
of the productions alone: the items that are *valid* for the word (`ShiftReduce.Augmented.Valid`).
An item is valid if a chain of productions leads down to it
(`ShiftReduce.Augmented.Chain`): the chain begins with the production of the fresh start symbol,
each further production belongs to a symbol in the right-hand side of the one before, and the word
is what stands in front of these symbols and of the dot, put together.

The two inclusions are proved apart.

* A state holds valid items only (`ShiftReduce.Automaton.valid_of_follow?`). The induction is on
  the word, and for each move on how the items came into the goto: they were moved over the symbol,
  or asked for.
* Every valid item is found (`ShiftReduce.Automaton.exists_follow?_of_valid`). The induction is on
  the chain; within a production the dot moves along the right-hand side
  (`ShiftReduce.Automaton.exists_follow?_of_drop`).

Together they say that a word can be followed exactly if it has a valid item, and what the state
holds then (`ShiftReduce.Automaton.follow?_viable_prefix`).
-/

namespace ShiftReduce

/-! ### Valid items -/

namespace Augmented

/-- **A chain of productions** along a word, down to the production of some number. It begins with
production zero and the empty word. A production continues it whose left-hand side stands in the
right-hand side of the last one, and what stands in front of it there comes behind the word. -/
inductive Chain (A : Augmented) : List Symbol → ℕ → Prop
  /-- The production of the fresh start symbol. -/
  | first : A.Chain [] 0
  /-- A production of a symbol in the right-hand side of the last one. -/
  | next {word before behind : List Symbol} {k l : ℕ} {p q : Production} : A.Chain word k →
      A.productions[k]? = some p → A.productions[l]? = some q →
      p.rhs = before ++ q.lhs :: behind → A.Chain (word ++ before) l

/-- **An item is valid for a word** if a chain leads down to its production along the beginning of
the word, and the rest of the word stands before the dot. -/
def Valid (A : Augmented) (word : List Symbol) (i : Item) : Prop :=
  ∃ (start before behind : List Symbol) (p : Production), A.Chain start i.production ∧
    A.productions[i.production]? = some p ∧ p.rhs = before ++ behind ∧ i.dot = before.length ∧
    word = start ++ before

variable {A : Augmented} {g : Grammar} {word : List Symbol} {X : Symbol} {i j : Item} {p d : ℕ}

/-- A chain leads to an item with the dot at the start. -/
theorem Chain.valid {k : ℕ} {q : Production} (h : A.Chain word k)
    (hq : A.productions[k]? = some q) : A.Valid word ⟨k, 0⟩ :=
  ⟨word, [], q.rhs, q, h, hq, rfl, rfl, by simp⟩

theorem valid_first (hA : 0 < A.productions.size) : A.Valid [] ⟨0, 0⟩ :=
  Chain.first.valid (Array.getElem?_eq_getElem hA)

/-- **Moving the dot** makes an item valid for a word that is one symbol longer. -/
theorem Valid.move (h : A.Valid word ⟨p, d⟩) (hnext : A.nextSymbol ⟨p, d⟩ = some X) :
    A.Valid (word ++ [X]) ⟨p, d + 1⟩ := by
  obtain ⟨start, before, behind, q, hchain, hq, hrhs, hdot, rfl⟩ := h
  change d = before.length at hdot
  subst hdot
  obtain ⟨rest, rfl⟩ : ∃ rest, behind = X :: rest := by
    rw [nextSymbol, rhs_eq hq, hrhs, List.getElem?_append_right (Nat.le_refl _), Nat.sub_self,
      ← List.head?_eq_getElem?] at hnext
    exact List.head?_eq_some_iff.mp hnext
  exact ⟨start, before ++ [X], rest, q, hchain, hq, by simpa using hrhs, by simp, by simp⟩

/-- **What a valid item asks for is valid** for the same word. -/
theorem Valid.ask (h : A.Valid word i) (hj : j ∈ A.asksFor i) : A.Valid word j := by
  obtain ⟨start, before, behind, q, hchain, hq, hrhs, hdot, rfl⟩ := h
  obtain ⟨X, q', hnext, -, hzero, hq', rfl⟩ := mem_asksFor_iff.mp hj
  obtain ⟨rest, rfl⟩ : ∃ rest, behind = q'.lhs :: rest := by
    rw [nextSymbol, rhs_eq hq, hrhs, hdot, List.getElem?_append_right (Nat.le_refl _),
      Nat.sub_self, ← List.head?_eq_getElem?] at hnext
    exact List.head?_eq_some_iff.mp hnext
  obtain ⟨k, e⟩ := j
  obtain rfl : e = 0 := hzero
  exact (hchain.next hq hq' hrhs).valid hq'

/-- A left-hand side, wherever it stands, is a non-terminal of the augmented grammar. -/
theorem Augments.lhs_mem (h : A.Augments g) {k : ℕ} {q : Production}
    (hq : A.productions[k]? = some q) : q.lhs ∈ A.nonTerminals := by
  rw [h.nonTerminals]
  rcases h.production_cases hq with ⟨-, htop, -⟩ | ⟨-, hlhs, -⟩
  · exact Or.inl htop
  · exact Or.inr hlhs

end Augmented

/-! ### Following the moves -/

namespace Automaton

/-- The number of the state that a move over a symbol leads to. -/
def move? (m : Automaton) (q : ℕ) (X : Symbol) : Option ℕ :=
  ((m.movesFrom q).find? (·.symbol = X)).map (·.target)

/-- The number of the state that the moves over the symbols of a word lead to, one after the
other. -/
def follow? (m : Automaton) (q : ℕ) (word : List Symbol) : Option ℕ :=
  word.foldlM m.move? q

@[simp] theorem follow?_nil (m : Automaton) (q : ℕ) : m.follow? q [] = some q := rfl

theorem follow?_cons (m : Automaton) (q : ℕ) (X : Symbol) (word : List Symbol) :
    m.follow? q (X :: word) = (m.move? q X).bind fun r => m.follow? r word := rfl

theorem follow?_append (m : Automaton) (q : ℕ) (word later : List Symbol) :
    m.follow? q (word ++ later) = (m.follow? q word).bind fun r => m.follow? r later :=
  List.foldlM_append

section OfAugmented

variable {A : Augmented} {g : Grammar} {word : List Symbol} {X : Symbol} {i : Item} {q r p d : ℕ}

/-- A move leads where an edge does. -/
theorem move?_eq_some_iff (hA : 0 < A.productions.size) :
    (ofAugmented A).move? q X = some r ↔ (ofAugmented A).Edge q X r := by
  rw [move?, Option.map_eq_some_iff]
  constructor
  · rintro ⟨t, ht, rfl⟩
    obtain ⟨hmem, hsource⟩ := List.mem_filter.mp (List.mem_of_find?_eq_some ht)
    exact ⟨t, hmem, congrArg Nat.cast (of_decide_eq_true hsource),
      by simpa using List.find?_some ht, rfl⟩
  · intro hedge
    have ⟨t, ht, hsource, hX, _⟩ := hedge
    have hmem : t ∈ (ofAugmented A).movesFrom q :=
      List.mem_filter.mpr ⟨ht, decide_eq_true (by exact_mod_cast hsource)⟩
    obtain ⟨t', ht'⟩ := Option.isSome_iff_exists.mp
      (List.find?_isSome.mpr ⟨t, hmem, by simpa using hX⟩ :
        (((ofAugmented A).movesFrom q).find? (·.symbol = X)).isSome)
    -- what is found first leads over the same symbol, so it leads to the same number
    obtain ⟨hmem', hsource'⟩ := List.mem_filter.mp (List.mem_of_find?_eq_some ht')
    have hedge' : (ofAugmented A).Edge q X t'.target :=
      ⟨t', hmem', congrArg Nat.cast (of_decide_eq_true hsource'),
        by simpa using List.find?_some ht', rfl⟩
    exact ⟨t', ht', by exact_mod_cast hedge'.eq hA hedge⟩

/-- The last move along a word is an edge. -/
theorem exists_edge_of_follow? (hA : 0 < A.productions.size)
    (h : (ofAugmented A).follow? q (word ++ [X]) = some r) :
    ∃ p : ℕ, (ofAugmented A).follow? q word = some p ∧ (ofAugmented A).Edge p X r := by
  rw [follow?_append] at h
  obtain ⟨p, hp, hmove⟩ := Option.bind_eq_some_iff.mp h
  refine ⟨p, hp, (move?_eq_some_iff hA).mp ?_⟩
  simpa [follow?_cons] using hmove

/-- The start state holds items that are valid for the empty word. -/
theorem valid_of_holds_start (hA : 0 < A.productions.size)
    (h : (ofAugmented A).Holds start i) : A.Valid [] i :=
  holds_start_induction hA (Augmented.valid_first hA) (fun _ _ _ hvalid hask => hvalid.ask hask) h

/-- What an edge leads to holds items that are valid for one symbol more. -/
theorem Edge.valid (hA : 0 < A.productions.size) (hedge : (ofAugmented A).Edge q X r)
    (hvalid : ∀ i, (ofAugmented A).Holds q i → A.Valid word i) (h : (ofAugmented A).Holds r i) :
    A.Valid (word ++ [X]) i :=
  hedge.holds_induction hA (fun _ _ hheld hnext => (hvalid _ hheld).move hnext)
    (fun _ _ _ hvalid hask => hvalid.ask hask) h

/-- **After a word the automaton holds valid items only.** -/
theorem valid_of_follow? (hA : 0 < A.productions.size)
    (hfollow : (ofAugmented A).follow? start word = some r) (h : (ofAugmented A).Holds r i) :
    A.Valid word i := by
  induction word using List.reverseRecOn generalizing r i with
  | nil =>
    obtain rfl : start = r := Option.some.inj hfollow
    exact valid_of_holds_start hA h
  | append_singleton word X ih =>
    obtain ⟨q, hq, hedge⟩ := exists_edge_of_follow? hA hfollow
    exact hedge.valid hA (fun _ hheld => ih hq hheld) h

/-- **The moves along a right-hand side** take the dot of an item with them. -/
theorem exists_follow?_of_drop (hA : 0 < A.productions.size) {before behind : List Symbol}
    (hheld : (ofAugmented A).Holds q ⟨p, d⟩) (hdrop : (A.rhs p).drop d = before ++ behind) :
    ∃ r : ℕ, (ofAugmented A).follow? q before = some r ∧
      (ofAugmented A).Holds r ⟨p, d + before.length⟩ := by
  induction before generalizing q d with
  | nil => exact ⟨q, rfl, hheld⟩
  | cons X before ih =>
    have hnext : A.nextSymbol ⟨p, d⟩ = some X := by
      have hhead := congrArg List.head? hdrop
      rwa [List.head?_drop] at hhead
    obtain ⟨_, t, ht, hsource, hsymbol, rfl⟩ := hheld.exists_edge hA hnext
    have hedge : (ofAugmented A).Edge q X t.target := ⟨t, ht, hsource, hsymbol, rfl⟩
    have hdrop' : (A.rhs p).drop (d + 1) = before ++ behind := by
      rw [Augmented.drop_dot (i := ⟨p, d⟩) hnext] at hdrop
      exact (List.cons.inj hdrop).2
    obtain ⟨r, hfollow, hheld'⟩ := ih ((hedge.holds_succ hA).mpr ⟨hheld, hnext⟩) hdrop'
    refine ⟨r, ?_, ?_⟩
    · rw [follow?_cons, (move?_eq_some_iff hA).mpr hedge]
      exact hfollow
    · rw [List.length_cons, Nat.add_comm before.length 1, ← Nat.add_assoc]
      exact hheld'

/-- The moves along a chain lead to where its last production begins. -/
theorem exists_follow?_of_chain (hg : A.Augments g) {k : ℕ} (h : A.Chain word k) :
    ∃ r : ℕ, (ofAugmented A).follow? start word = some r ∧ (ofAugmented A).Holds r ⟨k, 0⟩ := by
  induction h with
  | first => exact ⟨start, rfl, holds_start hg.size_pos⟩
  | @next word before behind k l p q _ hp hq hrhs ih =>
    obtain ⟨r, hfollow, hheld⟩ := ih
    have hdrop : (A.rhs k).drop 0 = before ++ q.lhs :: behind := by
      rw [List.drop_zero, Augmented.rhs_eq hp, hrhs]
    obtain ⟨r', hfollow', hheld'⟩ := exists_follow?_of_drop hg.size_pos hheld hdrop
    rw [Nat.zero_add] at hheld'
    -- the dot stands before the left-hand side now, so the production is asked for
    have hnext : A.nextSymbol ⟨k, before.length⟩ = some q.lhs := by
      rw [Augmented.nextSymbol, Augmented.rhs_eq hp, hrhs]
      simp
    refine ⟨r', by rw [follow?_append, hfollow, Option.bind_some, hfollow'], ?_⟩
    exact hheld'.ask hg.size_pos
      (Augmented.mem_asksFor_iff.mpr ⟨q.lhs, q, hnext, hg.lhs_mem hq, rfl, hq, rfl⟩)

/-- **Every valid item is found** in the state after the word. -/
theorem exists_follow?_of_valid (hg : A.Augments g) (h : A.Valid word i) :
    ∃ r : ℕ, (ofAugmented A).follow? start word = some r ∧ (ofAugmented A).Holds r i := by
  obtain ⟨first, before, behind, p, hchain, hp, hrhs, hdot, rfl⟩ := h
  obtain ⟨q, hfollow, hheld⟩ := exists_follow?_of_chain hg hchain
  have hdrop : (A.rhs i.production).drop 0 = before ++ behind := by
    rw [List.drop_zero, Augmented.rhs_eq hp, hrhs]
  obtain ⟨r, hfollow', hheld'⟩ := exists_follow?_of_drop hg.size_pos hheld hdrop
  rw [Nat.zero_add, ← hdot] at hheld'
  exact ⟨r, by rw [follow?_append, hfollow, Option.bind_some, hfollow'], hheld'⟩

/-- A state that the moves lead to is there, and holds some item. -/
theorem exists_state_of_follow? (hA : 0 < A.productions.size)
    (hfollow : (ofAugmented A).follow? start word = some r) :
    ∃ s, (Collection.canonical A).states[r]? = some s ∧ ∃ i, i ∈ s.items := by
  rcases List.eq_nil_or_concat' word with rfl | ⟨word, X, rfl⟩
  · obtain rfl : start = r := Option.some.inj hfollow
    obtain ⟨s, hs, hitems⟩ := Collection.canonical_zero hA
    exact ⟨s, hs, ⟨0, 0⟩, hitems ▸ Augmented.subset_closure (by simp)⟩
  · obtain ⟨q, -, hedge⟩ := exists_edge_of_follow? hA hfollow
    obtain ⟨j, k, s, s', -, hk, -, hs', hX, hgoto⟩ := hedge.exists_states hA
    obtain rfl : r = k := by exact_mod_cast hk
    have hne : s'.items ≠ [] := hgoto ▸ Augmented.goto_ne_nil_iff.mpr hX
    exact ⟨s', hs', List.exists_mem_of_ne_nil _ hne⟩

end OfAugmented

/-- **The states are the sets of valid items.** In the automaton of a grammar that was built from
rows a word can be followed from the start state exactly if some item is valid for it. The state it
leads to holds the valid items and no others, in ascending order. -/
theorem follow?_viable_prefix {rows : List Row} {g : Grammar} (hg : Grammar.ofRows rows = .ok g)
    (settings : Settings) :
    ∃ a, ofGrammar g settings = .ok a ∧ ∀ word,
      ((a.follow? start word).isSome ↔ ∃ i, a.grammar.Valid word i) ∧
      ∀ k, a.follow? start word = some k → ∃ s, a.states[k]? = some s ∧
        (∀ i, i ∈ s.items ↔ a.grammar.Valid word i) ∧ s.items.Pairwise (· < ·) := by
  obtain ⟨a, ha⟩ := exists_ofGrammar hg settings
  obtain ⟨A, rfl, haug, -⟩ := exists_augments hg ha
  have hA := haug.size_pos
  have hvalid : ∀ word k, (ofAugmented A).follow? start word = some k →
      ∀ i, (ofAugmented A).Holds k i ↔ A.Valid word i := by
    intro word k hfollow i
    refine ⟨valid_of_follow? hA hfollow, fun h => ?_⟩
    obtain ⟨r, hfollow', hheld⟩ := exists_follow?_of_valid haug h
    obtain rfl : k = r := Option.some.inj (hfollow.symm.trans hfollow')
    exact hheld
  refine ⟨_, ha, fun word => ⟨⟨fun h => ?_, fun ⟨i, hi⟩ => ?_⟩, fun k hfollow => ?_⟩⟩
  · obtain ⟨k, hfollow⟩ := Option.isSome_iff_exists.mp h
    obtain ⟨s, hs, i, hi⟩ := exists_state_of_follow? hA hfollow
    exact ⟨i, (hvalid word k hfollow i).mp ((holds_natCast_iff hA hs).mpr hi)⟩
  · obtain ⟨r, hfollow, -⟩ := exists_follow?_of_valid haug hi
    exact Option.isSome_iff_exists.mpr ⟨r, hfollow⟩
  · obtain ⟨s, hs, -⟩ := exists_state_of_follow? hA hfollow
    refine ⟨s, (getElem?_states k).trans hs, fun i => ?_,
      (Collection.sound_canonical hA).pairwise hs⟩
    rw [← holds_natCast_iff hA hs]
    exact hvalid word k hfollow i

theorem follow?_viable_prefix_brackets :
    (∀ i, (Augmented.brackets).Valid ["a", "S"] i ↔ i ∈ [(⟨1, 2⟩ : Item), ⟨3, 0⟩]) ∧
      ¬∃ i, (Augmented.brackets).Valid ["a", "b"] i := by
  obtain ⟨a, ha, hwords⟩ := follow?_viable_prefix Grammar.ofRows_bracketRows {}
  obtain rfl : ofAugmented .brackets = a := Except.ok.inj (ofGrammar_brackets.symm.trans ha)
  have hfollow : (ofAugmented .brackets).follow? start ["a", "S"] = some 4 ∧
      ((ofAugmented .brackets).states[4]?).map (·.items) = some [⟨1, 2⟩, ⟨3, 0⟩] ∧
      (ofAugmented .brackets).follow? start ["a", "b"] = none := by decide +kernel
  obtain ⟨hto, hitems, hnone⟩ := hfollow
  obtain ⟨s, hs, hvalid, -⟩ := (hwords ["a", "S"]).2 4 hto
  rw [hs] at hitems
  refine ⟨fun i => ?_, fun h => ?_⟩
  · rw [← Option.some.inj hitems]
    exact (hvalid i).symm
  · have hsome := (hwords ["a", "b"]).1.mpr h
    rw [hnone] at hsome
    exact absurd hsome (by simp)

end Automaton

end ShiftReduce
